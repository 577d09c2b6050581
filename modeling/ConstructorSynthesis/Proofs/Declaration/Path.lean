import Mathlib.Data.List.Forall2
import ConstructorSynthesis.Blueprint.Target

/-!
The path of a declaration: its namespace, the types around it and the type
itself. An identity, a name that is shown and a reference are all written along
this path with a dot between the segments. They differ only in how a single
segment is written, so a scanner that turns one form into another is understood
once it is understood on a single segment.
-/

namespace ConstructorSynthesis

/-- None of the banned characters is in the text. -/
def Text.Avoids (banned cs : List Char) : Prop := ∀ c ∈ cs, c ∉ banned

theorem Text.all_iff_avoids (banned cs : List Char) :
    (cs.all fun c => !banned.contains c) = true ↔ Avoids banned cs := by
  simp [Avoids]

instance (banned cs : List Char) : Decidable (Text.Avoids banned cs) :=
  decidable_of_iff _ (Text.all_iff_avoids banned cs)

namespace Declaration

/-- The types on the path, outermost first and the declared one last, as names
with their type parameters. -/
def segments (d : Declaration) : List (String × List String) :=
  d.enclosing.map (fun e => (e.name, e.typeParams)) ++ [(d.name, d.typeParams)]

def pathNames (d : Declaration) : List String :=
  d.inNamespace.toList ++ d.segments.map Prod.fst

def pathParams (d : Declaration) : List String :=
  d.segments.flatMap Prod.snd

theorem mem_pathNames_of_inNamespace {d : Declaration} {name : String}
    (h : name ∈ d.inNamespace) : name ∈ d.pathNames :=
  List.mem_append_left _ (Option.mem_toList.mpr h)

theorem mem_pathNames_of_segment {d : Declaration} {s : String × List String}
    (h : s ∈ d.segments) : s.1 ∈ d.pathNames :=
  List.mem_append_right _ (List.mem_map_of_mem h)

theorem mem_pathParams_of_segment {d : Declaration} {s : String × List String} {p : String}
    (h : s ∈ d.segments) (hp : p ∈ s.2) : p ∈ d.pathParams :=
  List.mem_flatMap.mpr ⟨s, h, hp⟩

/-- The path in which the segments have the given texts. -/
def pathText (d : Declaration) (texts : List (List Char)) : List Char :=
  ['.'].intercalate (d.inNamespace.toList.map String.toList ++ texts)

/-- Whatever a segment is written as, the dotted path is the path of these texts. -/
theorem toList_dottedPath (d : Declaration) (write : String → List String → String) :
    (dottedPath d.inNamespace (d.enclosing.map fun e => write e.name e.typeParams)
      (write d.name d.typeParams)).toList =
    d.pathText (d.segments.map fun s => (write s.1 s.2).toList) := by
  simp only [dottedPath, String.toList_intercalate, pathText, segments, List.map_append,
    List.map_map, List.append_assoc]
  rfl

theorem toList_id (d : Declaration) :
    d.id.text.toList = d.pathText (d.segments.map fun s => (idSegment s.1 s.2).toList) :=
  toList_dottedPath d idSegment

theorem toList_fullName (c : Catalog) (d : Declaration) :
    (Target.ofDeclaration c d).fullName.toList =
      d.pathText (d.segments.map fun s => (genericName s.1 s.2).toList) :=
  toList_dottedPath d genericName

end Declaration

/-- In front of anything, the scanner turns `text` into `image`. -/
def Carries (scan : List Char → List Char) (text image : List Char) : Prop :=
  ∀ rest, scan (text ++ rest) = image ++ scan rest

section Scan

variable {scan : List Char → List Char} (hend : scan [] = []) (hdot : Carries scan ['.'] ['.'])

include hend hdot

/-- A scanner that carries the parts over carries over what they make with dots
between them. -/
theorem scan_intercalate {texts images : List (List Char)}
    (hparts : List.Forall₂ (Carries scan) texts images) :
    scan (['.'].intercalate texts) = ['.'].intercalate images := by
  induction hparts with
  | nil => exact hend
  | @cons text image texts images hpart hrest ih =>
      cases hrest with
      | nil =>
          have hlast := hpart []
          rw [hend] at hlast
          simpa using hlast
      | @cons next nextImage texts images _ _ =>
          rw [List.intercalate_cons_cons, List.intercalate_cons_cons, List.append_assoc,
            List.append_assoc, hpart, hdot, ih]

/-- A scanner that keeps the namespace and turns each segment into its form in
the identity turns the path into the identity. -/
theorem Declaration.scan_pathText {d : Declaration} {texts : List (List Char)}
    (hnamespace : ∀ name ∈ d.inNamespace, Carries scan name.toList name.toList)
    (hsegments : List.Forall₂ (fun s text => Carries scan text (idSegment s.1 s.2).toList)
      d.segments texts) :
    scan (d.pathText texts) = d.id.text.toList := by
  rw [toList_id]
  apply scan_intercalate hend hdot
  apply List.rel_append
  · rw [List.forall₂_map_left_iff, List.forall₂_map_right_iff, List.forall₂_same]
    intro name member
    exact hnamespace name (Option.mem_toList.mp member)
  · rw [List.forall₂_map_right_iff]
    exact hsegments.flip

end Scan

end ConstructorSynthesis
