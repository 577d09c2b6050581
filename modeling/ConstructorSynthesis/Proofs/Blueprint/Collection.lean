import Mathlib.Data.List.Forall2
import ConstructorSynthesis.Proofs.Blueprint.Selection

/-!
Which targets a catalog has, told by the places of its declarations. At some places
stands the first declaration of its type that carries one of the two attributes.
There is one target for each of these places and no other, in their order, and it
says what the declaration there says. What it says of the base comes from another
place: the first declaration of the base, with an attribute or without, behind the
target or before it.
-/

namespace ConstructorSynthesis

/-- The declaration carries one of the two attributes itself. -/
def Declaration.IsMarked (d : Declaration) : Prop :=
  "AutoConstruct" ∈ d.attributes ∨ "AutoConstructAttribute" ∈ d.attributes

theorem Declaration.requestsConstructor_iff (d : Declaration) :
    d.requestsConstructor = true ↔ d.IsMarked := by
  simp [requestsConstructor, requestNames, hasAttribute, IsMarked]

/-- The field of a target says what the declared field says. -/
structure TargetField.Describes (field : TargetField) (f : Field) : Prop where
  name : field.name = f.name
  typeName : field.typeName = f.typeName
  isReadonly : field.isReadonly = f.isReadonly
  isStatic : field.isStatic = f.isStatic
  isNameable : field.isNameable = true ↔ f.isImplicit = false
  hasInitializer : field.hasInitializer = f.hasInitializer

theorem TargetField.describes_ofField (f : Field) : (TargetField.ofField f).Describes f :=
  ⟨rfl, rfl, rfl, rfl, by simp [ofField], rfl⟩

namespace Catalog

variable (c : Catalog)

/-- The first declaration of its type that is marked stands at this place. -/
structure FirstMarkedAt (place : Nat) (d : Declaration) : Prop where
  here : c.toList[place]? = some d
  marked : d.IsMarked
  first : ∀ earlier < place, ∀ e, c.toList[earlier]? = some e → e.IsMarked → e.id ≠ d.id

/-- The constructors that a type has as a base: those of its first declaration, or
none if it is not declared. -/
inductive BaseConstructors (k : TypeId) : List Constructor → Prop where
  | declared {before behind : List Declaration} {d : Declaration}
      (split : c.toList = before ++ d :: behind) (first : ∀ e ∈ before, e.id ≠ k)
      (same : d.id = k) : BaseConstructors k d.constructors
  | undeclared (absent : ∀ d ∈ c.toList, d.id ≠ k) : BaseConstructors k []

/-- What a target says of its base if the declaration names `base`. -/
def DescribesBase (base : Option TypeId) : Option BaseType → Prop
  | none => base = none
  | some found => base = some found.id ∧ c.BaseConstructors found.id found.constructors

/-- The target says what the declaration says, and of the base what the catalog
does. -/
structure Describes (t : Target) (d : Declaration) : Prop where
  id : t.id = d.id
  name : t.name = d.name
  kind : t.kind = d.kind
  inNamespace : t.inNamespace = d.inNamespace
  enclosing : t.enclosing = d.enclosing
  typeParams : t.typeParams = d.typeParams
  fields : List.Forall₂ TargetField.Describes t.fields d.fields
  base : c.DescribesBase d.base t.base

theorem baseConstructors_ofCatalog (k : TypeId) :
    c.BaseConstructors k (BaseType.ofCatalog c k).constructors := by
  have hlookup := c.get?_eq_find? k
  rw [BaseType.ofCatalog]
  cases hfound : c.get? k with
  | none =>
      rw [hfound, eq_comm, List.find?_eq_none] at hlookup
      exact .undeclared fun d member => by simpa using hlookup d member
  | some d =>
      rw [hfound, eq_comm, List.find?_eq_some_iff_append] at hlookup
      obtain ⟨same, before, behind, split, first⟩ := hlookup
      exact .declared split (fun e member => by simpa using first e member) (by simpa using same)

theorem describes_ofDeclaration (d : Declaration) : c.Describes (Target.ofDeclaration c d) d where
  id := rfl
  name := rfl
  kind := rfl
  inNamespace := rfl
  enclosing := rfl
  typeParams := rfl
  fields := by
    rw [Target.ofDeclaration, List.forall₂_map_left_iff, List.forall₂_same]
    exact fun f _ => TargetField.describes_ofField f
  base := by
    cases hbase : d.base with
    | none => simp [Target.ofDeclaration, hbase, DescribesBase]
    | some k =>
        simp only [Target.ofDeclaration, hbase, Option.map_some, DescribesBase]
        exact ⟨rfl, c.baseConstructors_ofCatalog k⟩

/-- A search for a request of the type ends at the first marked declaration. -/
theorem firstMarkedAt_iff (place : Nat) (d : Declaration) :
    c.FirstMarkedAt place d ↔ c.request? d.id = some d ∧ requestPlace c.toList d.id = place := by
  have hasks (e : Declaration) : e.asksFor d.id = true ↔ e.IsMarked ∧ e.id = d.id := by
    rw [e.asksFor_iff, e.requestsConstructor_iff]
  constructor
  · rintro ⟨here, marked, first⟩
    obtain ⟨bound, hd⟩ := List.getElem?_eq_some_iff.mp here
    have hearlier (m : Nat) (before : m < place) :
        (c.toList[m]).asksFor d.id = false := by
      rw [Bool.eq_false_iff, ne_eq, hasks]
      rintro ⟨hmarked, same⟩
      exact first m before _ (List.getElem?_eq_getElem _) hmarked same
    constructor
    · rw [request?, List.find?_eq_some_iff_getElem]
      refine ⟨(hasks d).mpr ⟨marked, rfl⟩, place, bound, hd, ?_⟩
      intro m before
      rw [hearlier m before]
      rfl
    · rw [requestPlace, List.findIdx_eq bound, hd]
      exact ⟨(hasks d).mpr ⟨marked, rfl⟩, hearlier⟩
  · rintro ⟨hrequest, rfl⟩
    rw [request?, List.find?_eq_some_iff_getElem] at hrequest
    obtain ⟨asks, place, bound, hd, hearlier⟩ := hrequest
    have hplace : requestPlace c.toList d.id = place := by
      rw [requestPlace, List.findIdx_eq bound, hd]
      exact ⟨asks, fun m before => by simpa using hearlier m before⟩
    rw [hplace]
    refine ⟨by rw [List.getElem?_eq_getElem bound, hd], ((hasks d).mp asks).1, ?_⟩
    intro m before e he marked same
    obtain ⟨_, rfl⟩ := List.getElem?_eq_some_iff.mp he
    have hsilent := hearlier m before
    rw [(hasks _).mpr ⟨marked, same⟩] at hsilent
    cases hsilent

/-- The targets of a catalog are different types, and a type is among them exactly
if a declaration of it is marked. They stand in the order of the places where the
first marked declaration of each type stands; each describes the declaration at its
place, and its base has the constructors of the first declaration of the base. -/
theorem targets_are_first_marked (c : Catalog) :
    (c.targets.map Target.id).Nodup ∧
    (∀ k, k ∈ c.targets.map Target.id ↔ ∃ d ∈ c.toList, d.id = k ∧ d.IsMarked) ∧
    ∃ places : List Nat, places.Pairwise (· < ·) ∧
      (∀ place, place ∈ places ↔ ∃ d, c.FirstMarkedAt place d) ∧
      List.Forall₂ (fun t place => ∃ d, c.FirstMarkedAt place d ∧ c.Describes t d)
        c.targets places := by
  refine ⟨c.nodup_ids_targets, ?_, ?_⟩
  · intro k
    rw [c.mem_ids_targets_iff, c.request?_isSome_iff]
    simp only [Declaration.requestsConstructor_iff, and_comm]
  · obtain ⟨asking, ⟨hasking, ordered⟩, htargets⟩ := c.targets_eq
    refine ⟨asking.map fun d => requestPlace c.toList d.id, ?_, ?_, ?_⟩
    · exact List.pairwise_map.mpr ordered
    · intro place
      simp only [List.mem_map, hasking, firstMarkedAt_iff]
    · rw [htargets, List.forall₂_map_left_iff, List.forall₂_map_right_iff, List.forall₂_same]
      intro d member
      have hplace := (c.firstMarkedAt_iff _ d).mpr ⟨(hasking d).mp member, rfl⟩
      exact ⟨d, hplace, c.describes_ofDeclaration d⟩

end Catalog

end ConstructorSynthesis
