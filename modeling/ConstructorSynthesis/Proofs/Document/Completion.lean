import ConstructorSynthesis.Proofs.Document.Reading
import ConstructorSynthesis.Proofs.Markup.Concatenation

/-!
What the reader makes of a document that is not well-formed. A construct without
its terminator and an end tag at the wrong place are faults, and a document with
a fault is refused. Two defects are no faults: elements may still be open where
the document ends, and a tag may hold what is no attribute or repeats one. Such a
document is read as its completion, in which the missing end tags stand at the end
and the tags hold attributes only. The completion is a tree of elements, so what
the document declares is what the tree says.
-/

namespace ConstructorSynthesis.Markup

/-- The tag with the attributes that could be read and nothing else. -/
def Tag.readable (t : Tag) : Tag := { t with items := t.items.filter Except.isOk }

@[simp]
theorem Tag.attributes_readable (t : Tag) : t.readable.attributes = t.attributes := by
  unfold attributes readable
  rw [List.filterMap_filter]
  apply List.filterMap_congr
  intro item _
  cases item <;> rfl

def Event.readable : Event → Event
  | .start tag => .start tag.readable
  | .empty tag => .empty tag.readable
  | .stop name => .stop name

namespace Stream

def readable : Stream → Stream
  | .done => .done
  | .broken fault => .broken fault
  | .next event rest => .next event.readable rest.readable

/-- The end tags of some elements, from the inside out. -/
def endTags : List String → Stream
  | [] => .done
  | name :: names => .next (.stop name) (endTags names)

/-- The sequence with the end tags that are missing, and without anything in a
tag that is no attribute. -/
def completed (s : Stream) : Stream := (s.append (endTags (s.openAtEnd []))).readable

/-- The start tags and the empty tags of a sequence. -/
def tags : Stream → List Tag
  | .done => []
  | .broken _ => []
  | .next (.start tag) rest => tag :: rest.tags
  | .next (.empty tag) rest => tag :: rest.tags
  | .next (.stop _) rest => rest.tags

theorem isOk_of_mem_readable {s : Stream} {tag : Tag} (member : tag ∈ s.readable.tags)
    {item : Except AttributeFault Attribute} (hitem : item ∈ tag.items) : item.isOk = true := by
  have hreadable (t : Tag) (member : item ∈ t.readable.items) : item.isOk = true :=
    (List.mem_filter.mp member).2
  induction s with
  | done => cases member
  | broken fault => cases member
  | next event rest ih =>
      cases event with
      | start t =>
          rcases List.mem_cons.mp member with rfl | later
          · exact hreadable t hitem
          · exact ih later
      | empty t =>
          rcases List.mem_cons.mp member with rfl | later
          · exact hreadable t hitem
          · exact ih later
      | stop name => exact ih member

theorem closes_readable (s : Stream) (opened : List String) :
    s.readable.Closes opened ↔ s.Closes opened := by
  induction s generalizing opened with
  | done => rfl
  | broken fault => rfl
  | next event rest ih =>
      cases event with
      | start tag => exact ih (tag.name :: opened)
      | empty tag => exact ih opened
      | stop name =>
          simp only [readable, Event.readable, Closes, ih]

theorem closes_endTags (names : List String) : (endTags names).Closes names := by
  induction names with
  | nil => rfl
  | cons name names ih => exact ⟨names, rfl, ih⟩

/-- With the missing end tags a sequence without a fault closes every element. -/
theorem closes_append_endTags {s : Stream} {opened : List String}
    (whole : (s.nest opened).fault? = none) :
    ((s.nest opened).append (endTags ((s.nest opened).openAtEnd opened))).Closes opened := by
  induction s generalizing opened with
  | done => exact closes_endTags opened
  | broken fault => cases whole
  | next event rest ih =>
      cases event with
      | start tag => exact ih whole
      | empty tag => exact ih whole
      | stop name =>
          cases opened with
          | nil => cases whole
          | cons innermost outer =>
              by_cases same : name = innermost
              · rw [nest, if_pos same] at whole ⊢
                exact ⟨outer, by rw [same], ih whole⟩
              · rw [nest, if_neg same] at whole
                cases whole

theorem closes_completed_ofText {text : String} (whole : (ofText text).fault? = none) :
    (ofText text).completed.Closes [] := by
  rw [completed, closes_readable]
  exact closes_append_endTags whole

end Stream

end ConstructorSynthesis.Markup

namespace ConstructorSynthesis.Document

open Markup (Tag Event Stream Element)

/-- Only the name of a tag and its attributes matter to the reader. -/
theorem enter_congr {t u : Tag} (hname : t.name = u.name)
    (hattributes : t.attributes = u.attributes) (around : Frame) :
    enter t around = enter u around := by
  unfold enter required readType readField readParameter readConstructor
  rw [hname, hattributes]

namespace Reading

theorem step_readable (r : Reading) (event : Event) : r.step event.readable = r.step event := by
  have henter (t : Tag) (frame : Frame) : enter t.readable frame = enter t frame := by
    have hname : t.readable.name = t.name := rfl
    exact enter_congr hname t.attributes_readable frame
  cases event with
  | start tag =>
      cases r with
      | before => rfl
      | inside declared frame outer => simp only [Event.readable, step, henter]
      | behind declared => rfl
  | empty tag =>
      cases r with
      | before => rfl
      | inside declared frame outer =>
          have hname : isEmptyNamespace tag.readable frame = isEmptyNamespace tag frame := rfl
          simp only [Event.readable, step, henter, hname]
      | behind declared => rfl
  | stop name => rfl

theorem run_readable (r : Reading) (s : Stream) : r.run s.readable = r.run s := by
  induction s generalizing r with
  | done => rfl
  | broken fault => rfl
  | next event rest ih =>
      simp only [Stream.readable, run, step_readable]
      cases r.step event with
      | error e => rfl
      | ok next => exact ih next

/-- The number of open elements that the reader still has to leave. -/
def depth : Reading → Nat
  | before => 0
  | inside _ _ outer => outer.length + 1
  | behind _ => 0

theorem depth_close (declared : List Declaration) (frame : Frame) (outer : List Frame) :
    (close declared frame outer).depth = outer.length := by
  cases outer <;> rfl

/-- Reading a tag enters one element, leaves one or does neither, and a reader
that is inside of elements keeps what is around the innermost one. -/
theorem depth_le_of_step {r next : Reading} {event : Event} (hstep : r.step event = .ok next)
    {opened : List String} (h : r.depth ≤ opened.length) :
    next.depth ≤ (event.openBehind opened).length := by
  cases r with
  | before =>
      cases event with
      | start tag =>
          cases hstep
          split <;> simp [depth, Event.openBehind]
      | empty tag =>
          cases hstep
          split <;> simp [depth]
      | stop name =>
          cases hstep
          exact Nat.zero_le _
  | behind declared =>
      cases hstep
      exact Nat.zero_le _
  | inside declared frame outer =>
      simp only [depth] at h
      cases event with
      | start tag =>
          simp only [step] at hstep
          obtain ⟨frames, -, hnext⟩ := exists_of_bind_eq_ok hstep
          cases hnext
          simp only [depth, Event.openBehind, List.length_cons]
          omega
      | empty tag =>
          simp only [step] at hstep
          split at hstep
          · cases hstep
            exact h
          · obtain ⟨frames, -, hnext⟩ := exists_of_bind_eq_ok hstep
            cases hnext
            rw [depth_close]
            exact h
      | stop name =>
          cases hstep
          rw [depth_close, Event.openBehind, List.length_tail]
          omega

/-- End tags for all open elements do what the end of the document does. -/
theorem run_endTags {r : Reading} {names : List String} (h : r.depth ≤ names.length) :
    r.run (Stream.endTags names) = r.finish := by
  induction names generalizing r with
  | nil => rfl
  | cons name names ih =>
      cases r with
      | before => exact ih (Nat.zero_le _)
      | behind declared => exact ih (Nat.zero_le _)
      | inside declared frame outer =>
          have hclosed : (close declared frame outer).depth ≤ names.length := by
            rw [depth_close]
            exact Nat.le_of_succ_le_succ h
          rw [Stream.endTags, run_stop, ih hclosed]
          cases outer <;> rfl

theorem run_append_endTags {r : Reading} {opened : List String} (h : r.depth ≤ opened.length)
    (s : Stream) : r.run (s.append (Stream.endTags (s.openAtEnd opened))) = r.run s := by
  induction s generalizing r opened with
  | done => exact run_endTags h
  | broken fault => rfl
  | next event rest ih =>
      simp only [Stream.append, Stream.openAtEnd, run]
      cases hstep : r.step event with
      | error e => rfl
      | ok next => exact ih (depth_le_of_step hstep h)

theorem run_completed (s : Stream) : before.run s.completed = before.run s := by
  rw [Stream.completed, run_readable]
  exact run_append_endTags (Nat.zero_le _) s

/-- A sequence with a fault is refused, if not for the fault then before it. -/
theorem fault?_eq_none_of_run {r : Reading} {s : Stream} {declared : List Declaration}
    (h : r.run s = .ok declared) : s.fault? = none := by
  induction s generalizing r with
  | done => rfl
  | broken fault => cases h
  | next event rest ih =>
      simp only [run] at h
      cases hstep : r.step event with
      | error e => simp [hstep] at h
      | ok next =>
          rw [hstep] at h
          exact ih h

end Reading

theorem map_toList_parse (text : String) :
    (parse text).map Catalog.toList = declarationsOf text := by
  rw [parse]
  cases declarationsOf text with
  | error e => rfl
  | ok ds => simp [Except.map]

/-- Whatever is accepted has no fault. A document without a fault is read as the
tree of its completion: elements that are still open at the end are closed there,
and what is no attribute of a tag counts for nothing. -/
theorem parse_reads_completed (text : String) :
    let tags := Stream.ofText text
    (∀ c, parse text = .ok c → tags.fault? = none) ∧
    (tags.fault? = none →
      (∀ tag ∈ tags.completed.tags, ∀ item ∈ tag.items, item.isOk = true) ∧
      ∃ doc, tags.completed = Element.streamAll doc .done ∧
        (parse text).map Catalog.toList =
          Reading.declaredAmong (Element.inOrderAll doc)
            (.error (.badStructure "No declarations element found"))) := by
  intro tags
  constructor
  · intro c hparse
    have hrun : Reading.before.run tags = .ok c.toList := by
      rw [← declarationsOf, ← map_toList_parse, hparse]
      rfl
    exact Reading.fault?_eq_none_of_run hrun
  · intro whole
    refine ⟨fun tag member item hitem => Stream.isOk_of_mem_readable member hitem, ?_⟩
    obtain ⟨doc, hdoc⟩ :=
      (Element.closes_iff_exists_document _).mp (Stream.closes_completed_ofText whole)
    refine ⟨doc, hdoc, ?_⟩
    rw [map_toList_parse, declarationsOf, ← Reading.run_completed, hdoc]
    exact Reading.run_before_all doc fun _ => rfl

/-- A document that stops inside a type, and two documents in which a field is
marked as read-only by an attribute that is not read, once for want of quotes and
once because the attribute stands there before. All three are accepted; in the
first the type counts, in the others the field is not read-only. -/
theorem parse_accepts_malformed :
    let stopped := "<declarations><type name='A'>"
    let unquoted :=
      "<declarations><type name='A'><field name='x' type='T' readonly=true/></type></declarations>"
    let repeated :=
      "<declarations><type name='A'><field name='x' type='T' readonly='false' readonly='true'/>" ++
        "</type></declarations>"
    let declared (fields : List Field) : Declaration :=
      ⟨"A", .classType, none, [], [], none, [], fields, []⟩
    let plain : Field := ⟨"x", "T", false, false, false, false⟩
    ((Stream.ofText stopped).openAtEnd [] = ["type", "declarations"] ∧
      (parse stopped).map Catalog.toList = .ok [declared []]) ∧
    ((∃ tag ∈ (Stream.ofText unquoted).tags, tag.name = "field" ∧
        .error (.unquoted "readonly") ∈ tag.items) ∧
      (parse unquoted).map Catalog.toList = .ok [declared [plain]]) ∧
    ((∃ tag ∈ (Stream.ofText repeated).tags, tag.name = "field" ∧
        .error (.repeated "readonly") ∈ tag.items) ∧
      (parse repeated).map Catalog.toList = .ok [declared [plain]]) := by
  simp only [map_toList_parse]
  decide +kernel

end ConstructorSynthesis.Document
