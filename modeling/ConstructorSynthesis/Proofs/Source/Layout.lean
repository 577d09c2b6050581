import ConstructorSynthesis.Source.Rendering

/-!
The source of a constructor is the layout of a tree. The tree nests the blocks
around the constructor and does not know the settings; its layout is defined by
recursion, each item at the depth of the block that it stands in. Rendering works
on a page with a depth instead, and closes whatever is open in one go at the end.
Both agree because every operation on a page adds the layout of some items at the
depth of the page, and because leaving a block turns what was added since it was
entered into one item of the block around it.
-/

namespace ConstructorSynthesis

/-- Nested text: a line, or a block in braces below its header. -/
inductive Layout where
  | line (content : String)
  | block (header : String) (items : List Layout)

namespace Layout

/-- One line at a depth. An empty line gets no indent. -/
def lineText (indent : String) (depth : Nat) (content : String) : String :=
  if content = "" then "\n" else String.join (List.replicate depth indent) ++ content ++ "\n"

mutual
/-- The text of an item at a depth. The braces of a block stand at the depth of
its header. -/
def text (indent : String) (depth : Nat) : Layout → String
  | line content => lineText indent depth content
  | block header items =>
      lineText indent depth header ++ lineText indent depth "\x7b"
        ++ textAll indent (depth + 1) items ++ lineText indent depth "\x7d"

def textAll (indent : String) (depth : Nat) : List Layout → String
  | [] => ""
  | item :: items => item.text indent depth ++ textAll indent depth items
end

mutual
/-- The lines of an item, each with its depth. -/
def lines (depth : Nat) : Layout → List (Nat × String)
  | line content => [(depth, content)]
  | block header items =>
      (depth, header) :: (depth, "\x7b") :: linesAll (depth + 1) items ++ [(depth, "\x7d")]

def linesAll (depth : Nat) : List Layout → List (Nat × String)
  | [] => []
  | item :: items => item.lines depth ++ linesAll depth items
end

/-- Lines with their depths, put down with an indent. -/
def indented (indent : String) (lines : List (Nat × String)) : String :=
  String.join (lines.map fun (depth, content) => lineText indent depth content)

theorem indented_append (indent : String) (first second : List (Nat × String)) :
    indented indent (first ++ second) = indented indent first ++ indented indent second := by
  simp [indented]

mutual
/-- The indent shows in the margins of the lines only. -/
theorem text_eq_indented (indent : String) (depth : Nat) (item : Layout) :
    item.text indent depth = indented indent (item.lines depth) := by
  cases item with
  | line content => simp [text, lines, indented]
  | block header items =>
      rw [text, lines, textAll_eq_indented, indented_append]
      simp [indented, String.append_assoc]

theorem textAll_eq_indented (indent : String) (depth : Nat) (items : List Layout) :
    textAll indent depth items = indented indent (linesAll depth items) := by
  cases items with
  | nil => rfl
  | cons item items =>
      rw [textAll, linesAll, indented_append, text_eq_indented indent depth item,
        textAll_eq_indented indent depth items]
end

theorem textAll_append (indent : String) (depth : Nat) (items more : List Layout) :
    textAll indent depth (items ++ more) =
      textAll indent depth items ++ textAll indent depth more := by
  induction items with
  | nil => simp [textAll]
  | cons item items ih => rw [List.cons_append, textAll, textAll, ih, String.append_assoc]

/-- Blocks inside each other, the first header outermost, around some items. -/
def nest (headers : List String) (items : List Layout) : List Layout :=
  headers.foldr (fun header inner => [block header inner]) items

end Layout

namespace Page

/-- Adds the layout of some items at the depth of the page. -/
def lay (p : Page) (items : List Layout) : Page :=
  { p with text := p.text ++ Layout.textAll p.indent p.depth items }

variable (p : Page)

theorem lay_nil : p.lay [] = p := by
  simp [lay, Layout.textAll]

theorem lay_lay (items more : List Layout) : (p.lay items).lay more = p.lay (items ++ more) := by
  simp only [lay, Layout.textAll_append, String.append_assoc]

theorem line_eq_lay (content : String) : p.line content = p.lay [.line content] := by
  simp [line, lay, margin, Layout.textAll, Layout.text, Layout.lineText]

theorem blank_eq_lay : p.blank = p.lay [.line ""] := by
  simp [blank, lay, Layout.textAll, Layout.text, Layout.lineText]

/-- What is added between entering a block and leaving it becomes its content. -/
theorem leave_lay_enter (header : String) (items : List Layout) :
    ((p.enter header).lay items).leave = p.lay [.block header items] := by
  simp only [enter, lay, leave, line, margin, Layout.textAll, Layout.text, Layout.lineText,
    String.isEmpty_iff, String.append_assoc, String.append_empty]

theorem foldl_line (contents : List String) :
    contents.foldl line p = p.lay (contents.map .line) := by
  induction contents generalizing p with
  | nil => exact p.lay_nil.symm
  | cons content contents ih =>
      rw [List.foldl_cons, ih, line_eq_lay, lay_lay]
      rfl

theorem leaveTimes_succ (n : Nat) : p.leaveTimes (n + 1) = (p.leaveTimes n).leave := by
  induction n generalizing p with
  | zero => rfl
  | succ n ih => exact ih p.leave

theorem depth_foldl_enter (headers : List String) :
    (headers.foldl enter p).depth = p.depth + headers.length := by
  induction headers generalizing p with
  | nil => rfl
  | cons header headers ih =>
      rw [List.foldl_cons, ih, List.length_cons]
      simp only [enter, line]
      omega

/-- Entering blocks one inside the other and leaving them all nests them. -/
theorem leaveTimes_lay_foldl_enter (headers : List String) (items : List Layout) :
    ((headers.foldl enter p).lay items).leaveTimes headers.length =
      p.lay (Layout.nest headers items) := by
  induction headers generalizing p with
  | nil => rfl
  | cons header headers ih =>
      rw [List.foldl_cons, List.length_cons, leaveTimes_succ, ih, leave_lay_enter]
      rfl

end Page

namespace Blueprint

/-- The constructor: its parameters and what it passes on to the base, and inside it
the assignments in their order and the call of the hook. -/
def constructorLayout (b : Blueprint) (name : String) : Layout :=
  let parameters := b.parameters.map fun p => p.typeName ++ " " ++ p.name
  let call :=
    match b.baseArguments with
    | none => ""
    | some arguments => " : base(" ++ ", ".intercalate arguments ++ ")"
  .block ("public " ++ name ++ "(" ++ ", ".intercalate parameters ++ ")" ++ call)
    (b.assignments.map (fun a => .line ("this." ++ a.field ++ " = " ++ a.parameter ++ ";"))
      ++ [.line "Initialize();"])

/-- A part of a type, with the keyword of its kind and with its type parameters. -/
def part (kind : Kind) (name : String) (typeParams : List String) (items : List Layout) :
    Layout :=
  let keyword :=
    match kind with
    | .classType => "class"
    | .structType => "struct"
    | .recordType => "record"
    | .recordStruct => "record struct"
  let arguments := if typeParams = [] then "" else "<" ++ ", ".intercalate typeParams ++ ">"
  .block ("partial " ++ keyword ++ " " ++ name ++ arguments) items

/-- The part of a target with its constructor and the hook. -/
def partLayout (b : Blueprint) (t : Target) : Layout :=
  part t.kind t.name t.typeParams
    [b.constructorLayout t.name, .line "", .line "partial void Initialize();"]

/-- The whole unit without its first lines: the part of the target inside those
of the types around it, and these inside the namespace if there is one. -/
def layout (b : Blueprint) (t : Target) : Layout :=
  let parts := t.enclosing.foldr
    (fun e inner => part e.kind e.name e.typeParams [inner]) (b.partLayout t)
  match t.inNamespace with
  | none => parts
  | some name => .block ("namespace " ++ name) [parts]

/-- The lines before the first block: the header, if there is one, and an empty
line. -/
def headerText (header : Option String) : String :=
  match header with
  | none => ""
  | some content => content ++ "\n" ++ "\n"

theorem block_partHeader (kind : Kind) (name : String) (typeParams : List String)
    (items : List Layout) :
    Layout.block (partHeader kind (genericName name typeParams)) items =
      part kind name typeParams items := by
  have hshown : genericName name typeParams = name ++
      (if typeParams = [] then "" else "<" ++ ", ".intercalate typeParams ++ ">") := by
    unfold genericName
    by_cases hnone : typeParams = [] <;> simp [hnone, String.append_assoc]
  rw [hshown, partHeader, ← String.append_assoc]
  cases kind <;> rfl

theorem nest_blockHeaders (b : Blueprint) (t : Target) :
    Layout.nest (blockHeaders t)
      [b.constructorLayout t.name, .line "", .line "partial void Initialize();"] =
        [b.layout t] := by
  have hparts (enclosing : List EnclosingType) (own : Layout) :
      Layout.nest (enclosing.map fun e => partHeader e.kind e.shownName) [own] =
        [enclosing.foldr (fun e inner => part e.kind e.name e.typeParams [inner]) own] := by
    induction enclosing with
    | nil => rfl
    | cons e enclosing ih =>
        rw [List.map_cons, Layout.nest, List.foldr_cons, ← Layout.nest, ih,
          EnclosingType.shownName, block_partHeader]
        rfl
  have hown (items : List Layout) : Layout.nest [partHeader t.kind t.shownName] items =
      [part t.kind t.name t.typeParams items] :=
    congrArg ([·]) (block_partHeader t.kind t.name t.typeParams items)
  have hsplit (front back : List String) (items : List Layout) :
      Layout.nest (front ++ back) items = Layout.nest front (Layout.nest back items) :=
    List.foldr_append
  rw [blockHeaders, hsplit, hsplit, hown, hparts, layout, partLayout]
  cases t.inNamespace <;> rfl

theorem addTo_eq_lay (b : Blueprint) (p : Page) (name : String) :
    b.addTo p name = p.lay [b.constructorLayout name] := by
  have hassigned (p : Page) : b.assignments.foldl (fun p a => p.line a.source) p =
      p.lay (b.assignments.map fun a =>
        .line ("this." ++ a.field ++ " = " ++ a.parameter ++ ";")) := by
    have h := p.foldl_line (b.assignments.map Assignment.source)
    rw [List.foldl_map, List.map_map] at h
    exact h
  rw [addTo, hassigned, Page.line_eq_lay, Page.lay_lay, Page.leave_lay_enter]
  rfl

theorem firstLines_eq (settings : Settings) :
    firstLines settings = ⟨settings.indent, 0, headerText settings.header⟩ := by
  unfold firstLines headerText
  cases settings.header with
  | none => rfl
  | some content =>
      by_cases hempty : content = "" <;> simp [Page.start, Page.line, Page.blank, Page.margin, hempty]

/-- Rendering lays the tree of the unit down behind the first lines. -/
theorem render_eq_lay (b : Blueprint) (t : Target) (settings : Settings) :
    b.render settings t = ((firstLines settings).lay [b.layout t]).text := by
  have hdepth (items : List Layout) :
      (((blockHeaders t).foldl Page.enter (firstLines settings)).lay items).depth =
        (blockHeaders t).length := by
    rw [Page.lay, Page.depth_foldl_enter, firstLines_eq, Nat.zero_add]
  rw [render, addTo_eq_lay, Page.blank_eq_lay, Page.line_eq_lay, Page.lay_lay, Page.lay_lay,
    Page.leaveAll, hdepth, Page.leaveTimes_lay_foldl_enter, ← nest_blockHeaders]
  rfl

/-- For all settings, the source of a constructor is its first lines and then the
layout of one tree at depth zero. The tree is the same for all settings, so the
sources for two settings have the same lines at the same depths: behind their first
lines they differ in the indents only. -/
theorem render_eq_layout (b : Blueprint) (t : Target) :
    (∀ settings, b.render settings t =
      headerText settings.header ++ (b.layout t).text settings.indent 0) ∧
    ∃ lines, ∀ settings, b.render settings t =
      headerText settings.header ++ Layout.indented settings.indent lines := by
  have hlayout (settings : Settings) : b.render settings t =
      headerText settings.header ++ (b.layout t).text settings.indent 0 := by
    rw [render_eq_lay, firstLines_eq, Page.lay]
    simp [Layout.textAll]
  refine ⟨hlayout, (b.layout t).lines 0, ?_⟩
  intro settings
  rw [hlayout, Layout.text_eq_indented]

/-- A part of a generic record inside a generic class and a namespace, with a base
that gets one of the two parameters. -/
theorem render_eq_layout_nested :
    let t : Target :=
      { id := ⟨"Pair"⟩, name := "Pair", kind := .recordStruct, inNamespace := some "Demo"
        enclosing := [⟨"Outer", .classType, ["T"]⟩], typeParams := ["K", "V"]
        base := none, fields := [] }
    let b : Blueprint :=
      ⟨[⟨"int", "seed"⟩, ⟨"K", "key"⟩], some ["seed"], .declared, [⟨"_key", "key"⟩]⟩
    b.render ⟨"\t", some "// made", true⟩ t = String.join
      ["// made\n", "\n",
        "namespace Demo\n", "\x7b\n",
        "\tpartial class Outer<T>\n", "\t\x7b\n",
        "\t\tpartial record struct Pair<K, V>\n", "\t\t\x7b\n",
        "\t\t\tpublic Pair(int seed, K key) : base(seed)\n", "\t\t\t\x7b\n",
        "\t\t\t\tthis._key = key;\n", "\t\t\t\tInitialize();\n",
        "\t\t\t\x7d\n", "\n",
        "\t\t\tpartial void Initialize();\n",
        "\t\t\x7d\n", "\t\x7d\n", "\x7d\n"] := by
  intro t b
  rw [(render_eq_layout b t).1]
  decide +kernel

end Blueprint

end ConstructorSynthesis
