import Pictograph.Catalogue.Join
import Pictograph.Proofs.Catalogue.CompatibilityOrder

/-!
# Common types are upper bounds

The common type of two types of values is a type of values again, and both types fit it. It need not
be the least such type: two classes whose nearest common ancestor conforms to no protocol may still
conform to one protocol, and what they have in common is the ancestor.

The element type of a collection literal is put together from left to right. Each step goes up, and
what was below stays below because compatibility is transitive.

## Main results

* `Catalogue.Joining.of_join`: what the common type of two types can be.
* `Catalogue.join_bounds`: both types fit their common type.
* `Catalogue.Reachable.exists_joined`: all members of a list fit what they are joined to.
-/

namespace Pictograph

namespace Catalogue

variable {cat : Catalogue} {a b t : Ty}

theorem complete_iff : cat.Complete t ↔ (∀ id, t.kind = .object id → (cat.class? id).isSome)
    ∧ (t.kind = .callable → t.arguments ≠ [] ∧ cat.AllComplete t.arguments) := by
  obtain ⟨kind, isOptional, arguments⟩ := t
  rw [Complete]

/-- The optional mark does not count. -/
theorem Complete.optional (h : cat.Complete t) : cat.Complete t.optional := by
  have hparts := complete_iff.mp h
  exact complete_iff.mpr hparts

theorem Complete.fits_self (h : cat.Complete t) : cat.fits t t :=
  (fits_of_alike t t h (Ty.Alike.refl t)).1

/-- How kinds fit depends on the kinds and the generic arguments. -/
theorem FitsByKind.congr {a' b' : Ty} (h : cat.FitsByKind a b) (hka : a'.kind = a.kind)
    (haa : a'.arguments = a.arguments) (hkb : b'.kind = b.kind) (hab : b'.arguments = b.arguments) :
    cat.FitsByKind a' b' := by
  obtain ⟨ha, hb, hdescends, harguments⟩ | ⟨ha, hb⟩ | ⟨ha, hb, hconforms⟩ | ⟨ha, hb, hsignature⟩ |
    ⟨hkind, hobject, hcallable⟩ := h
  · exact .inherits (hka.trans ha) (hkb.trans hb) hdescends (by rwa [haa, hab])
  · exact .isInstance (hka.trans ha) (hkb.trans hb)
  · exact .conforms (hka.trans ha) (hkb.trans hb) hconforms
  · exact .callable (hka.trans ha) (hkb.trans hb) (by rwa [haa, hab])
  · exact .same (by rw [hka, hkb, hkind]) (by rwa [hka]) (by rwa [hka])

theorem fits_optional (h : cat.fits a b) : cat.fits a b.optional := by
  rw [fits_iff] at h ⊢
  obtain hb | ⟨ha, -⟩ | ⟨ha, -, hkind⟩ := h
  · exact .anything hb
  · exact .nothingness ha (.inr rfl)
  · exact .byKind ha (fun _ ↦ rfl) (hkind.congr rfl rfl rfl rfl)

theorem fits_optional_of_nothingness (h : a.kind = .nothingness) : cat.fits a b.optional :=
  fits_iff.mpr (.nothingness h (.inr rfl))

theorem fits_anything : cat.fits a .anything := fits_iff.mpr (.anything rfl)

/-! ## Two types -/

/-- A type of values that two types fit. -/
structure Bounds (cat : Catalogue) (a b u : Ty) : Prop where
  complete : cat.Complete u
  left : cat.fits a u
  right : cat.fits b u

theorem kind_of_objectId? {id : TypeId} (h : a.objectId? = some id) : a.kind = .object id := by
  unfold Ty.objectId? at h
  split at h
  · next hkind =>
    cases h
    exact hkind
  · cases h

theorem objectId?_of_kind {id : TypeId} (ha : a.kind = .object id) : a.objectId? = some id := by
  simp [Ty.objectId?, ha]

/-- What the common type of two types can be. -/
inductive Joining (cat : Catalogue) (a b : Ty) : Ty → Prop
  /-- The second type fits the first. -/
  | left (hba : cat.fits b a) : Joining cat a b a
  /-- The first type fits the second. -/
  | right (hab : cat.fits a b) : Joining cat a b b
  /-- The first type is nothingness. -/
  | leftNothing (ha : a.kind = .nothingness) : Joining cat a b b.optional
  /-- The second type is nothingness. -/
  | rightNothing (hb : b.kind = .nothingness) : Joining cat a b a.optional
  /-- Two classes meet. -/
  | objects {left right : TypeId} (hab : cat.fits a b = false) (hba : cat.fits b a = false)
      (ha : a.kind = .object left) (hb : b.kind = .object right) :
      Joining cat a b (cat.joinObjects a b left right)
  /-- There is nothing in common. -/
  | anything (hab : cat.fits a b = false) (hba : cat.fits b a = false)
      (ha : a.kind ≠ .nothingness) (hb : b.kind ≠ .nothingness)
      (hobjects : ∀ left right, a.kind = .object left → b.kind ≠ .object right) :
      Joining cat a b .anything

theorem Joining.of_join (cat : Catalogue) (a b : Ty) : cat.Joining a b (cat.join a b) := by
  rw [join]
  by_cases hba : cat.fits b a
  · rw [if_pos hba]
    exact .left hba
  rw [if_neg hba]
  by_cases hab : cat.fits a b
  · rw [if_pos hab]
    exact .right hab
  rw [if_neg hab]
  by_cases ha : a.isNothingness
  · rw [if_pos ha]
    exact .leftNothing (beq_iff_eq.mp ha)
  rw [if_neg ha]
  by_cases hb : b.isNothingness
  · rw [if_pos hb]
    exact .rightNothing (beq_iff_eq.mp hb)
  rw [if_neg hb]
  split
  · next hleft hright =>
    exact .objects (eq_false_of_ne_true hab) (eq_false_of_ne_true hba) (kind_of_objectId? hleft)
      (kind_of_objectId? hright)
  · next hobjects =>
    refine .anything (eq_false_of_ne_true hab) (eq_false_of_ne_true hba)
      (fun hkind ↦ ha (beq_iff_eq.mpr hkind)) (fun hkind ↦ hb (beq_iff_eq.mpr hkind)) ?_
    intro left right hleft hright
    exact hobjects left right (objectId?_of_kind hleft) (objectId?_of_kind hright)

/-- A class type fits the type of an ancestor if that has the optional mark where it is needed and
either no generic arguments or the same. -/
theorem fits_ancestor {id : TypeId} {c : Class} {isOptional : Bool} {arguments : List Ty}
    (ha : a.kind = .object id) (hc : cat.descends id c.id) (hoptional : a.isOptional → isOptional)
    (harguments : arguments = [] ∨ a.arguments = arguments) :
    cat.fits a ⟨.object c.id, isOptional, arguments⟩ := by
  refine fits_iff.mpr (.byKind ?_ hoptional (.inherits ha rfl hc harguments))
  rw [ha]
  exact nofun

theorem joinObjects_bounds {left right : TypeId} (ha : a.kind = .object left)
    (hb : b.kind = .object right) : cat.Bounds a b (cat.joinObjects a b left right) := by
  have hleft (h : a.isOptional = true) : (a.isOptional || b.isOptional) = true := by rw [h]; rfl
  have hright (h : b.isOptional = true) : (a.isOptional || b.isOptional) = true := by
    rw [h, Bool.or_true]
  rw [joinObjects]
  split
  · next c hfind =>
    have hdescends : cat.descends left c.id :=
      descends_iff.mpr ⟨c, List.mem_of_find?_eq_some hfind, rfl⟩
    have hdescends' : cat.descends right c.id := by simpa using List.find?_some hfind
    refine ⟨complete_iff.mpr ⟨?_, nofun⟩, fits_ancestor ha hdescends hleft ?_,
      fits_ancestor hb hdescends' hright ?_⟩
    · rintro _ ⟨⟩
      exact class?_isSome_of_descends hdescends
    · split
      · exact .inr rfl
      · exact .inl rfl
    · split
      · next heq => exact .inr heq.2.symm
      · exact .inl rfl
  · refine ⟨complete_iff.mpr ⟨nofun, nofun⟩, ?_, ?_⟩
    · exact fits_iff.mpr (.byKind (by rw [ha]; exact nofun) hleft (.isInstance ha rfl))
    · exact fits_iff.mpr (.byKind (by rw [hb]; exact nofun) hright (.isInstance hb rfl))

/-- **The common type is an upper bound.** Two types of values fit their common type, which is a
type of values, too. -/
theorem join_bounds (ha : cat.Complete a) (hb : cat.Complete b) :
    cat.Bounds a b (cat.join a b) := by
  have hjoin := Joining.of_join cat a b
  generalize cat.join a b = u at hjoin ⊢
  obtain hba | hab | hnothing | hnothing | ⟨-, -, hleft, hright⟩ | - := hjoin
  · exact ⟨ha, ha.fits_self, hba⟩
  · exact ⟨hb, hab, hb.fits_self⟩
  · exact ⟨hb.optional, fits_optional_of_nothingness hnothing, fits_optional hb.fits_self⟩
  · exact ⟨ha.optional, fits_optional ha.fits_self, fits_optional_of_nothingness hnothing⟩
  · exact joinObjects_bounds hleft hright
  · exact ⟨complete_iff.mpr ⟨nofun, nofun⟩, fits_anything, fits_anything⟩

/-! ## Any number of types -/

/-- What a list of types is joined to, from left to right. -/
def joined (cat : Catalogue) (ts : List Ty) : Option Ty := ts.foldl cat.joinNext none

theorem joined_append_singleton (cat : Catalogue) (ts : List Ty) (t : Ty) :
    cat.joined (ts ++ [t]) = cat.joinNext (cat.joined ts) t := by
  rw [joined, List.foldl_append, List.foldl_cons, List.foldl_nil, joined]

/-- Joining goes up: what fits the type in front fits the type behind. -/
theorem Reachable.exists_foldl_joinNext (h : cat.Reachable) {ts : List Ty} (ha : cat.Complete a)
    (hts : ∀ t ∈ ts, cat.Complete t) :
    ∃ u, ts.foldl cat.joinNext (some a) = some u ∧ ∀ t ∈ a :: ts, cat.fits t u := by
  induction ts generalizing a with
  | nil =>
    refine ⟨a, rfl, fun t ht ↦ ?_⟩
    rw [List.mem_singleton] at ht
    exact ht ▸ ha.fits_self
  | cons t ts ih =>
    rw [List.forall_mem_cons] at hts
    have hbounds := join_bounds ha hts.1
    obtain ⟨u, hu, hall⟩ := ih hbounds.complete hts.2
    rw [List.forall_mem_cons] at hall
    refine ⟨u, hu, List.forall_mem_cons.mpr ⟨?_, List.forall_mem_cons.mpr ⟨?_, hall.2⟩⟩⟩
    · exact fits_trans h _ hbounds.left hall.1
    · exact fits_trans h _ hbounds.right hall.1

/-- **Joining a list bounds it.** The types of values in a list that is not empty are joined to a
type that all of them fit. -/
theorem Reachable.exists_joined (h : cat.Reachable) {ts : List Ty} (hne : ts ≠ [])
    (hts : ∀ t ∈ ts, cat.Complete t) :
    ∃ u, cat.joined ts = some u ∧ ∀ t ∈ ts, cat.fits t u := by
  cases ts with
  | nil => exact absurd rfl hne
  | cons t ts =>
    rw [List.forall_mem_cons] at hts
    exact h.exists_foldl_joinNext hts.1 hts.2

end Catalogue

end Pictograph
