import UmlText.Proofs.Reading.Naming

/-!
# UmlText.Proofs.Reading.Declared

What a store is like after a text was read into it: it was sent requests for elements and members
only, and every element of the table of names is there with a kind. Both are kept by every line
(`Reader.Declares.step`), whatever the store refuses.
-/

namespace UmlText

universe u

open BackedStore (workspace)

variable {σ : Type u} [ModelStore σ] [ViewStore σ] [BackedStore σ]

namespace Reader

/-- A reader whose store is reachable and has a kind for every element in the table of names. -/
structure Declares (r : Reader σ) : Prop where
  reachable : (workspace r.store).Reachable
  kind_isSome : ∀ id ∈ r.aliases.values, ((workspace r.store).kind? id).isSome

namespace Declares

variable {r : Reader σ}

/-- One line keeps the store reachable and every declared element in it. -/
theorem step (h : r.Declares) (line : Text.Line) : (r.step line).Declares where
  reachable := reachable_step h.reachable line
  kind_isSome := by
    intro id hid
    rcases mem_values_step hid with hold | ⟨d, hd, rfl⟩
    · rw [r.kind?_step line (h.kind_isSome id hold)]
      exact h.kind_isSome id hold
    · exact kind?_declaration hd

theorem readLines (h : r.Declares) (lines : List Text.Line) : (r.readLines lines).Declares :=
  Reader.readLines_induct (fun _ line _ hr => hr.step line) h

end Declares

/-- Reading a text into a reachable store leaves it reachable, with a kind for every declared
element. -/
theorem declares_readText {store : σ} (h : (workspace store).Reachable) (root : ElementId)
    (source : List Char) : (readText store root source).Declares := by
  have hstart : ({ store, root : Reader σ }).Declares := ⟨h, by simp [OrderedMap.values]⟩
  exact ⟨(hstart.readLines _).reachable, (hstart.readLines _).kind_isSome⟩

end Reader

/-- What `parse` declares has a kind in the store it returns, which can be reached. -/
theorem declares_parse {store read : σ} {root : ElementId} {source : String} {parsed : Parsed}
    (h : (workspace store).Reachable) (hparse : parse store root source = (parsed, read)) :
    (workspace read).Reachable ∧
      ∀ e ∈ parsed.uniqueElements, ((workspace read).kind? e).isSome := by
  obtain ⟨rfl, rfl⟩ := Prod.mk.inj hparse
  have hdeclares := Reader.declares_readText h root source.toList
  exact ⟨hdeclares.reachable, fun e he =>
    hdeclares.kind_isSome e (List.mem_eraseDups.1 he)⟩

end UmlText
