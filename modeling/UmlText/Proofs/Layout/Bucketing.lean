import UmlText.Proofs.Layout.Actors

/-!
# UmlText.Proofs.Layout.Bucketing

**Use cases are divided by who is linked to whom.** A use case belongs to an actor if that is the
only listed one it has a blueprint in common with; it is shared if there are two of them, and an
orphan if there is none. Every occurrence goes into one bucket, in the order of the list. So the
buckets depend on the blueprints only through the pairs they link, and on the actors only through
which ones are listed (`bucketUseCases_congr`).
-/

namespace UmlText

/-! ### Links -/

/-- Whether a blueprint joins an actor and a use case, in either direction. -/
def Linked (blueprints : List Blueprint) (actor useCase : ElementId) : Prop :=
  ∃ b ∈ blueprints, b.connects actor useCase

instance (blueprints : List Blueprint) (actor useCase : ElementId) :
    Decidable (Linked blueprints actor useCase) :=
  inferInstanceAs (Decidable (∃ b ∈ blueprints, b.connects actor useCase))

/-- Whether `actor` is the only listed actor of a use case. -/
def IsOnlyActor (actors : List ElementId) (blueprints : List Blueprint)
    (useCase actor : ElementId) : Prop :=
  (actor ∈ actors ∧ Linked blueprints actor useCase) ∧
    ∀ other ∈ actors, Linked blueprints other useCase → other = actor

instance (actors : List ElementId) (blueprints : List Blueprint) (useCase actor : ElementId) :
    Decidable (IsOnlyActor actors blueprints useCase actor) :=
  inferInstanceAs (Decidable (_ ∧ _))

/-- Whether a use case has two listed actors. -/
def IsShared (actors : List ElementId) (blueprints : List Blueprint) (useCase : ElementId) :
    Prop :=
  ∃ a ∈ actors, ∃ b ∈ actors, a ≠ b ∧ Linked blueprints a useCase ∧ Linked blueprints b useCase

instance (actors : List ElementId) (blueprints : List Blueprint) (useCase : ElementId) :
    Decidable (IsShared actors blueprints useCase) :=
  inferInstanceAs (Decidable (∃ a ∈ actors, ∃ b ∈ actors, _ ∧ _ ∧ _))

/-- Whether a use case has no listed actor. -/
def IsOrphan (actors : List ElementId) (blueprints : List Blueprint) (useCase : ElementId) :
    Prop :=
  ∀ a ∈ actors, ¬ Linked blueprints a useCase

instance (actors : List ElementId) (blueprints : List Blueprint) (useCase : ElementId) :
    Decidable (IsOrphan actors blueprints useCase) :=
  inferInstanceAs (Decidable (∀ a ∈ actors, ¬ Linked blueprints a useCase))

/-- The only listed actor of a use case. -/
def onlyActor? (actors : List ElementId) (blueprints : List Blueprint) (useCase : ElementId) :
    Option ElementId :=
  actors.find? fun actor => IsOnlyActor actors blueprints useCase actor

/-- A blueprint with its ends exchanged. -/
def Blueprint.exchanged (b : Blueprint) : Blueprint :=
  { b with source := b.target, target := b.source }

/-- Blueprints that link the same pairs: in another order, with repetitions, and with the ends of
some exchanged. -/
inductive Rearranged : List Blueprint → List Blueprint → Prop where
  | perm {bs bs' : List Blueprint} (h : bs.Perm bs') : Rearranged bs bs'
  | again {b : Blueprint} {bs : List Blueprint} (h : b ∈ bs) : Rearranged bs (b :: bs)
  | exchange (b : Blueprint) (bs : List Blueprint) : Rearranged (b :: bs) (b.exchanged :: bs)
  | trans {bs bs' bs'' : List Blueprint} (h : Rearranged bs bs') (h' : Rearranged bs' bs'') :
      Rearranged bs bs''

section Links

variable {actors : List ElementId} {blueprints : List Blueprint} {useCase : ElementId}

theorem onlyActor?_eq_some_iff {actor : ElementId} :
    onlyActor? actors blueprints useCase = some actor
      ↔ IsOnlyActor actors blueprints useCase actor := by
  constructor
  · intro h
    simpa using List.find?_some h
  · intro h
    cases hfound : onlyActor? actors blueprints useCase with
    | none =>
        have hnone := List.find?_eq_none.1 hfound actor h.1.1
        exact absurd (decide_eq_true h) hnone
    | some found =>
        have honly : IsOnlyActor actors blueprints useCase found := by
          simpa using List.find?_some hfound
        rw [h.2 found honly.1.1 honly.1.2]

theorem Blueprint.connects_exchanged (b : Blueprint) (x y : ElementId) :
    b.exchanged.connects x y = b.connects x y := by
  simp only [Blueprint.connects, Blueprint.exchanged]
  grind

theorem linked_concat {b : Blueprint} {actor : ElementId} :
    Linked (blueprints ++ [b]) actor useCase
      ↔ Linked blueprints actor useCase ∨ b.connects actor useCase := by
  simp only [Linked, List.mem_append, List.mem_singleton, or_and_right, exists_or,
    exists_eq_left]

/-- Rearranged blueprints link the same pairs. -/
theorem Rearranged.linked_iff {bs bs' : List Blueprint} (h : Rearranged bs bs')
    (actor useCase : ElementId) : Linked bs' actor useCase ↔ Linked bs actor useCase := by
  induction h with
  | perm h => simp only [Linked, h.mem_iff]
  | again h =>
      constructor
      · rintro ⟨b, hb, hlink⟩
        rcases List.mem_cons.1 hb with rfl | hb
        · exact ⟨b, h, hlink⟩
        · exact ⟨b, hb, hlink⟩
      · rintro ⟨b, hb, hlink⟩
        exact ⟨b, List.mem_cons_of_mem _ hb, hlink⟩
  | exchange b bs => simp [Linked, Blueprint.connects_exchanged]
  | trans _ _ ih ih' => exact ih'.trans ih

end Links

/-! ### The actors of a use case are those linked to it -/

section Actors

variable {actors useCases : List ElementId} {blueprints : List Blueprint}

/-- Adds an actor to those of a use case, if both are listed. -/
def linkListed (actors useCases : List ElementId) (links : OrderedMap ElementId (List ElementId))
    (actor useCase : ElementId) : OrderedMap ElementId (List ElementId) :=
  if actor ∈ actors ∧ useCase ∈ useCases then linkActor links actor useCase else links

theorem linkedActors_eq_foldl :
    linkedActors actors useCases blueprints
      = blueprints.foldl (fun links b => linkListed actors useCases
          (linkListed actors useCases links b.source b.target) b.target b.source) {} :=
  rfl

/-- What is known of a use case after one more pair: the actor of the pair, if both are listed. -/
theorem mem_linkListed {links : OrderedMap ElementId (List ElementId)}
    {actor useCase a u : ElementId} :
    a ∈ ((linkListed actors useCases links actor useCase).get? u).getD []
      ↔ a ∈ (links.get? u).getD [] ∨
        (a ∈ actors ∧ u ∈ useCases) ∧ actor = a ∧ useCase = u := by
  rw [linkListed]
  split
  · next hlisted =>
      rw [get?_linkActor]
      by_cases hu : useCase = u
      · by_cases ha : actor = a
        · subst hu ha
          by_cases hknown : actor ∈ (links.get? useCase).getD [] <;> simp [hknown, hlisted]
        · split <;> simp [hu, ha, Ne.symm ha]
      · simp [hu]
  · next hlisted =>
      refine ⟨.inl, fun h => h.resolve_right ?_⟩
      rintro ⟨hpair, rfl, rfl⟩
      exact hlisted hpair

theorem nodup_linkListed {links : OrderedMap ElementId (List ElementId)}
    {actor useCase u : ElementId} (h : ((links.get? u).getD []).Nodup) :
    (((linkListed actors useCases links actor useCase).get? u).getD []).Nodup := by
  rw [linkListed]
  split
  · rw [get?_linkActor]
    split
    · next hnew => exact h.append (List.nodup_singleton _) (by simpa using hnew.2)
    · exact h
  · exact h

/-- The actors of a use case are those that are listed and linked to it. -/
theorem mem_actorsOf {a u : ElementId} :
    a ∈ actorsOf actors useCases blueprints u
      ↔ (a ∈ actors ∧ u ∈ useCases) ∧ Linked blueprints a u := by
  rw [actorsOf, linkedActors_eq_foldl]
  induction blueprints using List.reverseRecOn with
  | nil => simp [Linked]
  | append_singleton bs b ih =>
      have hconnects : b.connects a u
          ↔ b.source = a ∧ b.target = u ∨ b.target = a ∧ b.source = u := by
        simp [Blueprint.connects, and_comm]
      rw [List.foldl_append, List.foldl_cons, List.foldl_nil, mem_linkListed, mem_linkListed, ih,
        linked_concat, hconnects, and_or_left, and_or_left, or_assoc]

theorem nodup_actorsOf (u : ElementId) : (actorsOf actors useCases blueprints u).Nodup := by
  rw [actorsOf, linkedActors_eq_foldl]
  induction blueprints using List.reverseRecOn with
  | nil => simp
  | append_singleton bs b ih =>
      rw [List.foldl_append, List.foldl_cons, List.foldl_nil]
      exact nodup_linkListed (nodup_linkListed ih)

variable {u : ElementId}

theorem actorsOf_eq_singleton_iff (hu : u ∈ useCases) (a : ElementId) :
    actorsOf actors useCases blueprints u = [a] ↔ IsOnlyActor actors blueprints u a := by
  have hmem : ∀ x, x ∈ actorsOf actors useCases blueprints u
      ↔ x ∈ actors ∧ Linked blueprints x u := fun x => by rw [mem_actorsOf]; simp [hu]
  constructor
  · intro h
    simp only [h, List.mem_singleton] at hmem
    exact ⟨(hmem a).1 rfl, fun other hother hlink => (hmem other).2 ⟨hother, hlink⟩⟩
  · rintro ⟨ha, honly⟩
    refine List.perm_singleton.1 ((List.perm_ext_iff_of_nodup (nodup_actorsOf u)
      (List.nodup_singleton a)).2 fun x => ?_)
    rw [hmem, List.mem_singleton]
    exact ⟨fun hx => honly x hx.1 hx.2, fun hx => hx ▸ ha⟩

theorem two_le_length_actorsOf_iff (hu : u ∈ useCases) :
    2 ≤ (actorsOf actors useCases blueprints u).length ↔ IsShared actors blueprints u := by
  have hmem : ∀ x, x ∈ actorsOf actors useCases blueprints u
      ↔ x ∈ actors ∧ Linked blueprints x u := fun x => by rw [mem_actorsOf]; simp [hu]
  have hnodup : (actorsOf actors useCases blueprints u).Nodup := nodup_actorsOf u
  match has : actorsOf actors useCases blueprints u with
  | [] | [_] =>
      simp only [has, List.mem_singleton, List.not_mem_nil] at hmem
      simp only [IsShared, List.length_nil, List.length_singleton]
      grind
  | a :: b :: rest =>
      rw [has, List.nodup_cons] at hnodup
      have ha := (hmem a).1 (has ▸ List.mem_cons_self)
      have hb := (hmem b).1 (has ▸ List.mem_cons_of_mem _ List.mem_cons_self)
      refine iff_of_true (by simp) ⟨a, ha.1, b, hb.1, ?_, ha.2, hb.2⟩
      rintro rfl
      exact hnodup.1 List.mem_cons_self

theorem actorsOf_eq_nil_iff (hu : u ∈ useCases) :
    actorsOf actors useCases blueprints u = [] ↔ IsOrphan actors blueprints u := by
  rw [List.eq_nil_iff_forall_not_mem]
  simp only [mem_actorsOf, hu, and_true, not_and, IsOrphan]

end Actors

/-! ### The buckets -/

namespace OrderedMap

variable {κ ν : Type} [DecidableEq κ]

theorem alter_eq_insert (m : OrderedMap κ ν) (k : κ) (f : Option ν → ν) :
    m.alter k f = m.insert k (f (m.get? k)) := by
  obtain ⟨l⟩ := m
  simp only [insert, alter, get?]
  refine congrArg OrderedMap.mk ?_
  induction l with
  | nil => rfl
  | cons e rest ih =>
      obtain ⟨k', v⟩ := e
      by_cases hk : k' = k <;> simp [alterEntries, findEntry, hk, ih]

/-- In a table whose keys are distinct, the entries are what is found under the keys. -/
theorem entries_eq_map [Inhabited ν] {m : OrderedMap κ ν} (h : m.keys.Nodup) :
    m.entries = m.keys.map fun k => (k, (m.get? k).getD default) := by
  rw [keys, List.map_map]
  refine (List.map_id m.entries).symm.trans (List.map_congr_left fun e he => ?_)
  rw [Function.comp_apply, get?_of_mem h he, Option.getD_some, id]

/-- What is added to the list under a key is added to the lists of the table. -/
theorem perm_flatten_values_alter (m : OrderedMap κ (List ν)) (k : κ) (v : ν) :
    (m.alter k fun known => known.getD [] ++ [v]).values.flatten.Perm
      (m.values.flatten ++ [v]) := by
  obtain ⟨l⟩ := m
  simp only [values, alter]
  induction l with
  | nil => rfl
  | cons e rest ih =>
      obtain ⟨k', known⟩ := e
      by_cases hk : k' = k
      · simp only [alterEntries, if_pos hk, List.map_cons, List.flatten_cons, Option.getD_some,
          List.append_assoc]
        exact List.Perm.append_left _ List.perm_append_comm
      · simp only [alterEntries, if_neg hk, List.map_cons, List.flatten_cons, List.append_assoc]
        exact ih.append_left _

end OrderedMap

/-- All that is in some bucket: the use cases of single actors, the shared ones and the orphans. -/
def UseCaseBuckets.all (b : UseCaseBuckets) : List ElementId :=
  b.exclusive.values.flatten ++ b.shared ++ b.orphans

theorem UseCaseBuckets.ext {b b' : UseCaseBuckets} (hexclusive : b.exclusive = b'.exclusive)
    (hshared : b.shared = b'.shared) (horphans : b.orphans = b'.orphans) : b = b' := by
  cases b
  cases b'
  congr

/-- A use case goes into one bucket. -/
theorem UseCaseBuckets.all_add (b : UseCaseBuckets) (useCase : ElementId)
    (actors : List ElementId) : (b.add useCase actors).all.Perm (b.all ++ [useCase]) := by
  match actors with
  | [] => exact .of_eq (List.append_assoc _ _ _).symm
  | [actor] =>
      have hexclusive :
          (b.exclusive.alter actor fun known => known.getD [] ++ [useCase]).values.flatten.Perm
            (useCase :: b.exclusive.values.flatten) :=
        (OrderedMap.perm_flatten_values_alter _ _ _).trans (List.perm_append_singleton _ _)
      have happend := (hexclusive.append_right b.shared).append_right b.orphans
      exact happend.trans (List.perm_append_singleton useCase b.all).symm
  | _ :: _ :: _ =>
      simp only [UseCaseBuckets.all, UseCaseBuckets.add, List.append_assoc]
      exact (List.perm_append_comm.append_left _).append_left _

/-- The element of a list that has just one. -/
def single? : List ElementId → Option ElementId
  | [a] => some a
  | _ => none

theorem single?_eq_some_iff {l : List ElementId} {a : ElementId} :
    single? l = some a ↔ l = [a] := by
  match l with
  | [] | [_] | _ :: _ :: _ => simp [single?]

theorem UseCaseBuckets.keys_exclusive_add (b : UseCaseBuckets) (useCase : ElementId)
    (actors : List ElementId) :
    (b.add useCase actors).exclusive.keys
      = match single? actors with
        | some a => if a ∈ b.exclusive.keys then b.exclusive.keys else b.exclusive.keys ++ [a]
        | none => b.exclusive.keys := by
  match actors with
  | [] | _ :: _ :: _ => rfl
  | [actor] =>
      show (b.exclusive.alter actor _).keys = _
      rw [OrderedMap.alter_eq_insert, OrderedMap.keys_insert]
      rfl

section Buckets

variable {actors useCases : List ElementId} {blueprints : List Blueprint}

theorem all_bucketUseCases :
    (bucketUseCases actors useCases blueprints).all.Perm useCases := by
  have hfold : ∀ (links : ElementId → List ElementId) (b : UseCaseBuckets) (l : List ElementId),
      (l.foldl (fun b u => b.add u (links u)) b).all.Perm (b.all ++ l) := by
    intro links b l
    induction l generalizing b with
    | nil => exact .of_eq (List.append_nil _).symm
    | cons u rest ih =>
        exact (ih _).trans (((b.all_add u (links u)).append_right rest).trans
          (.of_eq (List.append_assoc _ _ _)))
  exact hfold (actorsOf actors useCases blueprints) {} useCases

/-- The keys of the exclusive map are the only actors of use cases, by their first ones. -/
theorem keys_exclusive_bucketUseCases :
    (bucketUseCases actors useCases blueprints).exclusive.keys
      = (useCases.filterMap (onlyActor? actors blueprints)).eraseDups := by
  let add (b : UseCaseBuckets) (u : ElementId) : UseCaseBuckets :=
    b.add u (actorsOf actors useCases blueprints u)
  have hfold : ∀ l ⊆ useCases, (l.foldl add {}).exclusive.keys
      = (l.filterMap (onlyActor? actors blueprints)).eraseDups := by
    intro l
    induction l using List.reverseRecOn with
    | nil => exact fun _ => rfl
    | append_singleton l u ih =>
        intro hsub
        have hkeys := ih fun x hx => hsub (List.mem_append_left _ hx)
        have hu : u ∈ useCases := hsub (List.mem_append_right _ List.mem_cons_self)
        have honly : onlyActor? actors blueprints u
            = single? (actorsOf actors useCases blueprints u) := by
          ext a
          rw [onlyActor?_eq_some_iff, single?_eq_some_iff, actorsOf_eq_singleton_iff hu]
        rw [List.foldl_append, List.foldl_cons, List.foldl_nil, List.filterMap_append,
          List.filterMap_cons, List.filterMap_nil, honly]
        show (UseCaseBuckets.add _ u _).exclusive.keys = _
        rw [UseCaseBuckets.keys_exclusive_add, hkeys]
        cases single? (actorsOf actors useCases blueprints u) with
        | none => exact congrArg List.eraseDups (List.append_nil _).symm
        | some a => simp only [eraseDups_concat, List.mem_eraseDups]
  exact hfold useCases (List.Subset.refl _)

/-- The exclusive map lists the use cases of every actor that is the only one of some. -/
theorem exclusive_bucketUseCases :
    (bucketUseCases actors useCases blueprints).exclusive.entries
      = (useCases.filterMap (onlyActor? actors blueprints)).eraseDups.map fun a =>
          (a, useCases.filter fun u => IsOnlyActor actors blueprints u a) := by
  have hkeys : (bucketUseCases actors useCases blueprints).exclusive.keys = _ :=
    keys_exclusive_bucketUseCases
  rw [OrderedMap.entries_eq_map (hkeys ▸ nodup_eraseDups _), hkeys]
  refine List.map_congr_left fun a _ => Prod.ext rfl ?_
  show (bucketUseCases actors useCases blueprints).exclusiveOf a = _
  rw [exclusiveOf_bucketUseCases]
  exact List.filter_congr fun u hu => decide_eq_decide.2 (actorsOf_eq_singleton_iff hu a)

theorem shared_eq_filter :
    (bucketUseCases actors useCases blueprints).shared
      = useCases.filter fun u => IsShared actors blueprints u := by
  rw [shared_bucketUseCases]
  exact List.filter_congr fun u hu => decide_eq_decide.2 (two_le_length_actorsOf_iff hu)

theorem orphans_eq_filter :
    (bucketUseCases actors useCases blueprints).orphans
      = useCases.filter fun u => IsOrphan actors blueprints u := by
  rw [orphans_bucketUseCases]
  exact List.filter_congr fun u hu => decide_eq_decide.2 (actorsOf_eq_nil_iff hu)

/-- The buckets are the same for the same listed actors and the same links. -/
theorem bucketUseCases_congr {actors' : List ElementId} {blueprints' : List Blueprint}
    (hactors : ∀ a, a ∈ actors' ↔ a ∈ actors)
    (hlinked : ∀ a ∈ actors, ∀ u ∈ useCases, Linked blueprints' a u ↔ Linked blueprints a u) :
    bucketUseCases actors' useCases blueprints' = bucketUseCases actors useCases blueprints := by
  have honly : ∀ u ∈ useCases, ∀ a,
      IsOnlyActor actors' blueprints' u a ↔ IsOnlyActor actors blueprints u a := by
    intro u hu a
    simp only [IsOnlyActor, hactors]
    exact and_congr (and_congr_right fun ha => hlinked a ha u hu)
      (forall₂_congr fun a ha => imp_congr_left (hlinked a ha u hu))
  have hshared : ∀ u ∈ useCases, IsShared actors' blueprints' u ↔ IsShared actors blueprints u := by
    intro u hu
    simp only [IsShared, hactors]
    exact exists_congr fun a => and_congr_right fun ha => exists_congr fun b =>
      and_congr_right fun hb => and_congr_right fun _ =>
        and_congr (hlinked a ha u hu) (hlinked b hb u hu)
  have horphan : ∀ u ∈ useCases, IsOrphan actors' blueprints' u ↔ IsOrphan actors blueprints u := by
    intro u hu
    simp only [IsOrphan, hactors]
    exact forall₂_congr fun a ha => not_congr (hlinked a ha u hu)
  have hfirst : useCases.filterMap (onlyActor? actors' blueprints')
      = useCases.filterMap (onlyActor? actors blueprints) := by
    refine List.filterMap_congr fun u hu => Option.ext fun a => ?_
    rw [onlyActor?_eq_some_iff, onlyActor?_eq_some_iff, honly u hu a]
  have hexclusive : (bucketUseCases actors' useCases blueprints').exclusive
      = (bucketUseCases actors useCases blueprints).exclusive := by
    refine congrArg OrderedMap.mk (?_ : OrderedMap.entries _ = OrderedMap.entries _)
    rw [exclusive_bucketUseCases, exclusive_bucketUseCases, hfirst]
    exact List.map_congr_left fun a _ => Prod.ext rfl
      (List.filter_congr fun u hu => decide_eq_decide.2 (honly u hu a))
  have hrest : (bucketUseCases actors' useCases blueprints').shared
        = (bucketUseCases actors useCases blueprints).shared ∧
      (bucketUseCases actors' useCases blueprints').orphans
        = (bucketUseCases actors useCases blueprints).orphans := by
    rw [shared_eq_filter, shared_eq_filter, orphans_eq_filter, orphans_eq_filter]
    exact ⟨List.filter_congr fun u hu => decide_eq_decide.2 (hshared u hu),
      List.filter_congr fun u hu => decide_eq_decide.2 (horphan u hu)⟩
  exact UseCaseBuckets.ext hexclusive hrest.1 hrest.2

/-- **Use cases are divided by who is linked to whom.** Every occurrence is in one bucket: with the
only actor of the use case, among the shared ones or among the orphans. The buckets keep the order
of the list, and the actors stand in the order of their first use cases. Other actors and blueprints
that give the same links give the same buckets. -/
theorem bucketUseCases_divides (actors useCases : List ElementId) (blueprints : List Blueprint) :
    let buckets := bucketUseCases actors useCases blueprints
    buckets.all.Perm useCases ∧
    buckets.exclusive.entries
      = ((useCases.filterMap (onlyActor? actors blueprints)).eraseDups.map fun a =>
          (a, useCases.filter fun u => IsOnlyActor actors blueprints u a)) ∧
    (∀ u a, onlyActor? actors blueprints u = some a ↔ IsOnlyActor actors blueprints u a) ∧
    buckets.shared = useCases.filter (fun u => IsShared actors blueprints u) ∧
    buckets.orphans = useCases.filter (fun u => IsOrphan actors blueprints u) ∧
    (∀ actors' blueprints', (∀ a, a ∈ actors' ↔ a ∈ actors) →
      (∀ a ∈ actors, ∀ u ∈ useCases, Linked blueprints' a u ↔ Linked blueprints a u) →
      bucketUseCases actors' useCases blueprints' = buckets) ∧
    ∀ actors' blueprints', (∀ a, a ∈ actors' ↔ a ∈ actors) → Rearranged blueprints blueprints' →
      bucketUseCases actors' useCases blueprints' = buckets :=
  ⟨all_bucketUseCases, exclusive_bucketUseCases, fun _ _ => onlyActor?_eq_some_iff,
    shared_eq_filter, orphans_eq_filter,
    fun _ _ hactors hlinked => bucketUseCases_congr hactors hlinked,
    fun _ _ hactors h => bucketUseCases_congr hactors fun a _ u _ => h.linked_iff a u⟩

/-- Of three use cases one belongs to the second actor, one is shared and one is an orphan; the
actors and the blueprints may as well be listed in another order and with repetitions. -/
theorem bucketUseCases_divides_three :
    let link (actor useCase : Nat) : Blueprint :=
      { kind := .association, source := ⟨actor⟩, target := ⟨useCase⟩ }
    let useCases : List ElementId := [⟨10⟩, ⟨11⟩, ⟨12⟩, ⟨10⟩]
    let buckets := bucketUseCases [⟨1⟩, ⟨2⟩] useCases [link 2 10, link 1 11, link 2 11]
    buckets.exclusive.entries = [(⟨2⟩, [⟨10⟩, ⟨10⟩])] ∧ buckets.shared = [⟨11⟩] ∧
    buckets.orphans = [⟨12⟩] ∧
    bucketUseCases [⟨2⟩, ⟨1⟩, ⟨2⟩] useCases
      [link 1 11, (link 2 10).exchanged, link 1 11, link 2 11] = buckets := by
  intro link useCases buckets
  obtain ⟨-, -, -, -, -, -, hrearranged⟩ :=
    bucketUseCases_divides [⟨1⟩, ⟨2⟩] useCases [link 2 10, link 1 11, link 2 11]
  refine ⟨by decide, by decide, by decide, hrearranged _ _ ?_ ?_⟩
  · intro a
    simp only [List.mem_cons, List.not_mem_nil]
    grind
  · exact (Rearranged.exchange _ _).trans (.again (List.mem_cons_of_mem _ List.mem_cons_self))

end Buckets

end UmlText
