import Bindery.Proofs.Manual.Prose
import Bindery.Proofs.Manual.Scan

/-!
# Pages in the usual layout

A page that was laid out from a synopsis and a description gives both back: its marks are found
where they were put, reading upwards from the first stops at the blank line above the synopsis, and
the prose between them is the description.
-/

namespace Bindery.Manual
set_option autoImplicit false

open Text (splitNewlines)

/-! ## Lines of a page -/

/-- The first line of a page. -/
def headingLine (command : String) : List Char :=
  "lightning-".toList ++ command.toList ++ " -- Command ".toList ++ command.toList

theorem markFree_headingLine {command : String} (h : MarkFree command.toList) :
    MarkFree (headingLine command) := by
  have start : "lightning-".toList = "lightning".toList ++ ['-'] := by decide +kernel
  have between : " -- Command ".toList = ' ' :: '-' :: '-' :: (" Comman".toList ++ ['d', ' ']) := by
    decide +kernel
  have first : MarkFree "lightning".toList := by decide +kernel
  have second : MarkFree " Comman".toList := by decide +kernel
  have line : headingLine command = "lightning".toList ++ '-' :: ((command.toList ++ [' ']) ++
      '-' :: '-' :: (" Comman".toList ++ 'd' :: ' ' :: command.toList)) := by
    -- `unfold` would try to close the goal by computing both texts.
    delta headingLine
    rw [start, between]
    simp only [List.append_assoc, List.cons_append, List.nil_append]
  have behind := second.append_cons h.space_cons (c := 'd') (by decide)
  have middle := h.concat_space.append_cons (behind.cons (c := '-') (by decide)) (c := '-')
    (by decide)
  rw [line]
  exact first.append_cons middle (by decide)

/-- The lines of a page above its description. -/
def linesBefore (command : String) (synopsis : List (List Char)) : List (List Char) :=
  [headingLine command, "========================================".toList, [], "SYNOPSIS".toList,
    "--------".toList] ++ [] :: (synopsis ++ [[]])

/-- The lines of a page between its marks. -/
def linesBetween (description : List (List Char)) : List (List Char) :=
  "-----------".toList :: ([] :: description) ++ [[]]

/-- The lines of a page below its second mark. -/
def linesBehind : List (List Char) :=
  ["------------".toList, [], "On success, an object is returned.".toList, []]

/-- The lines of a page in the usual layout. -/
def layoutLines (command : String) (synopsis description : List (List Char)) : List (List Char) :=
  linesBefore command synopsis ++ descriptionMark.toList ::
    (linesBetween description ++ returnValueMark.toList :: linesBehind)

theorem splitNewlines_layout {command : String} (oneLine : '\n' ∉ command.toList)
    (synopsis description : String) :
    splitNewlines (layout command synopsis description).toList =
      layoutLines command (splitNewlines synopsis.toList) (splitNewlines description.toList) := by
  have heading : '\n' ∉ headingLine command := by
    have front : '\n' ∉ "lightning-".toList := by decide +kernel
    have middle : '\n' ∉ " -- Command ".toList := by decide +kernel
    unfold headingLine
    rw [List.mem_append, List.mem_append, List.mem_append, not_or, not_or, not_or]
    exact ⟨⟨⟨front, oneLine⟩, middle⟩, oneLine⟩
  have parts : (layout command synopsis description).toList = ['\n'].intercalate
      [headingLine command, "========================================".toList, [],
        "SYNOPSIS".toList, "--------".toList, [], synopsis.toList, [], descriptionMark.toList,
        "-----------".toList, [], description.toList, [], returnValueMark.toList,
        "------------".toList, [], "On success, an object is returned.".toList, []] := by
    delta layout headingLine descriptionMark returnValueMark
    simp
  rw [parts, Text.splitNewlines_intercalate (List.cons_ne_nil _ _)]
  simp (disch := decide +kernel) only [List.flatMap_cons, List.flatMap_nil,
    Text.splitNewlines_of_not_mem heading, Text.splitNewlines_of_not_mem]
  simp only [layoutLines, linesBefore, linesBetween, linesBehind, List.cons_append, List.nil_append,
    List.append_assoc, List.append_nil]

/-! ## Marks of a page -/

theorem markedLine?_append {mark : List Char} {before after : List (List Char)} {line : List Char}
    (free : ∀ l ∈ before, ¬mark <:+: l) (here : mark <:+: line) :
    markedLine? (String.ofList mark) ((before ++ line :: after).map String.ofList) =
      some before.length := by
  unfold markedLine?
  rw [List.map_append, List.findIdx?_append]
  have none : (before.map String.ofList).findIdx? (fun line =>
      Text.occursIn (String.ofList mark).toList line.toList) = none := by
    rw [List.findIdx?_eq_none_iff]
    intro l mem
    obtain ⟨l, there, rfl⟩ := List.mem_map.1 mem
    rw [String.toList_ofList, String.toList_ofList, ← Bool.not_eq_true, Text.occursIn_iff_infix]
    exact free l there
  have found : Text.occursIn (String.ofList mark).toList (String.ofList line).toList = true := by
    rw [String.toList_ofList, String.toList_ofList, Text.occursIn_iff_infix]
    exact here
  rw [none, List.map_cons, List.findIdx?_cons, if_pos found]
  simp

section Layout

variable {command : String} {synopsis description : List (List Char)}

theorem linesBefore_markFree (named : MarkFree command.toList)
    (each : ∀ line ∈ synopsis, SynopsisLine line) :
    ∀ line ∈ linesBefore command synopsis, MarkFree line := by
  have fixed : ∀ line ∈ ["========================================".toList, [],
      "SYNOPSIS".toList, "--------".toList, []], MarkFree line := by decide +kernel
  intro line mem
  simp only [linesBefore, List.mem_append, List.mem_cons, List.not_mem_nil, or_false] at mem
  simp only [List.mem_cons, List.not_mem_nil, or_false] at fixed
  rcases mem with (rfl | rfl | rfl | rfl | rfl) | rfl | mem | rfl
  · exact markFree_headingLine named
  · exact fixed _ (by simp)
  · exact fixed _ (by simp)
  · exact fixed _ (by simp)
  · exact fixed _ (by simp)
  · exact fixed _ (by simp)
  · exact (each line mem).markFree
  · exact fixed _ (by simp)

theorem linesBetween_markFree (each : ∀ line ∈ description, MarkFree line) :
    ∀ line ∈ linesBetween description, MarkFree line := by
  have rule : MarkFree "-----------".toList := by decide +kernel
  intro line mem
  simp only [linesBetween, List.mem_append, List.mem_cons, List.not_mem_nil, or_false] at mem
  rcases mem with (rfl | rfl | mem) | rfl
  · exact rule
  · exact MarkFree.nil
  · exact each line mem
  · exact MarkFree.nil

/-- The description opens where it was put. -/
theorem markedLine?_description (named : MarkFree command.toList)
    (each : ∀ line ∈ synopsis, SynopsisLine line) :
    markedLine? descriptionMark ((layoutLines command synopsis description).map String.ofList) =
      some (linesBefore command synopsis).length := by
  rw [← String.ofList_toList (s := descriptionMark)]
  refine markedLine?_append (fun line mem => ?_) List.infix_rfl
  exact linesBefore_markFree named each line mem _ List.mem_cons_self

/-- The section on return values opens where it was put. -/
theorem markedLine?_returnValue (named : MarkFree command.toList)
    (each : ∀ line ∈ synopsis, SynopsisLine line) (free : ∀ line ∈ description, MarkFree line) :
    markedLine? returnValueMark ((layoutLines command synopsis description).map String.ofList) =
      some ((linesBefore command synopsis).length + 1 + (linesBetween description).length) := by
  have whole : layoutLines command synopsis description =
      (linesBefore command synopsis ++ descriptionMark.toList :: linesBetween description) ++
        returnValueMark.toList :: linesBehind := by
    simp only [layoutLines, List.append_assoc, List.cons_append]
  have mark : returnValueMark.toList ∈ pageMarks := List.mem_cons_of_mem _ List.mem_cons_self
  have other : ¬returnValueMark.toList <:+: descriptionMark.toList := by decide +kernel
  have none : ∀ line ∈ linesBefore command synopsis ++ descriptionMark.toList ::
      linesBetween description, ¬returnValueMark.toList <:+: line := by
    intro line mem
    rcases List.mem_append.1 mem with mem | mem
    · exact linesBefore_markFree named each line mem _ mark
    · rcases List.mem_cons.1 mem with rfl | mem
      · exact other
      · exact linesBetween_markFree free line mem _ mark
  have found : markedLine? (String.ofList returnValueMark.toList)
      ((linesBefore command synopsis ++ descriptionMark.toList :: linesBetween description ++
        returnValueMark.toList :: linesBehind).map String.ofList) =
        some (linesBefore command synopsis ++ descriptionMark.toList ::
          linesBetween description).length := markedLine?_append none List.infix_rfl
  rw [String.ofList_toList] at found
  have size : (linesBefore command synopsis ++ descriptionMark.toList ::
      linesBetween description).length =
        (linesBefore command synopsis).length + 1 + (linesBetween description).length := by
    rw [List.length_append, List.length_cons]
    omega
  rw [whole, found, size]

end Layout

/-! ## The synopsis of a layout -/

theorem SynopsisLine.plain {line : List Char} (h : SynopsisLine line) :
    PlainLine (String.ofList line) := by
  obtain ⟨c, rest, rfl, starts⟩ := h.first
  obtain ⟨front, d, same, ends⟩ := h.last
  have first : Text.isBlank c = false ∧ c.isUpper = false := by
    rcases List.mem_pair.1 starts with rfl | rfl <;> decide
  have last : Text.isBlank d = false := by
    rcases List.mem_pair.1 ends with rfl | rfl <;> decide
  constructor
  · rw [Text.trimmed, String.toList_ofList, trim_eq_self same first.1 last]
  · intro none
    have chars := congrArg String.toList none
    rw [String.toList_ofList] at chars
    cases chars
  · rw [isHeading, String.toList_ofList]
    exact first.2

/-- The synopsis of a page is found above its description. -/
theorem synopsisAbove_layout {command : String} {synopsis description : List (List Char)}
    (each : ∀ line ∈ synopsis, SynopsisLine line) :
    synopsisAbove ((layoutLines command synopsis description).map String.ofList)
        (linesBefore command synopsis).length =
      String.ofList ([' '].intercalate synopsis) := by
  have plain : ∀ line ∈ synopsis.map String.ofList, PlainLine line := by
    intro line mem
    obtain ⟨l, there, rfl⟩ := List.mem_map.1 mem
    exact (each l there).plain
  obtain ⟨front, back, whole, size⟩ : ∃ front back,
      (layoutLines command synopsis description).map String.ofList =
          front ++ "" :: (synopsis.map String.ofList ++ back) ∧
        (linesBefore command synopsis).length - 1 =
          front.length + 1 + (synopsis.map String.ofList).length := by
    refine ⟨[headingLine command, "========================================".toList, [],
      "SYNOPSIS".toList, "--------".toList].map String.ofList, ([] :: descriptionMark.toList ::
      (linesBetween description ++ returnValueMark.toList :: linesBehind)).map String.ofList, ?_, ?_⟩
    · simp [layoutLines, linesBefore]
    · simp [linesBefore]
      omega
  rw [synopsisAbove, whole, size, linesAbove_eq plain]
  apply String.toList_injective
  rw [String.toList_intercalate, String.toList_ofList, List.map_map]
  simp

/-! ## The page of a layout -/

section Page

variable {command : String} {synopsis description : List (List Char)}

/-- The lines that every layout has. -/
def fixedLines : List (List Char) :=
  ["========================================".toList, "SYNOPSIS".toList, "--------".toList, [],
    descriptionMark.toList, "-----------".toList, returnValueMark.toList, "------------".toList,
    "On success, an object is returned.".toList]

theorem forall_layoutLines {P : List Char → Prop} (heading : P (headingLine command))
    (each : ∀ line ∈ synopsis, P line) (prose : ∀ line ∈ description, P line)
    (fixed : ∀ line ∈ fixedLines, P line) :
    ∀ line ∈ layoutLines command synopsis description, P line := by
  simp only [fixedLines, List.forall_mem_cons] at fixed
  obtain ⟨rule, title, underTitle, blank, opens, underOpens, ends, underEnds, last, -⟩ := fixed
  simp only [layoutLines, linesBefore, linesBetween, linesBehind, List.forall_mem_append,
    List.forall_mem_cons]
  have none : ∀ line ∈ ([] : List (List Char)), P line := by simp
  exact ⟨⟨⟨heading, rule, blank, title, underTitle, none⟩, blank, each, blank, none⟩, opens,
    ⟨⟨underOpens, blank, prose⟩, blank, none⟩, ends, underEnds, blank, last, blank, none⟩

/-- No line of a layout ends with a carriage return. -/
theorem layoutLines_noReturn (named : Synopsis.Writable command)
    (each : ∀ line ∈ synopsis, SynopsisLine line) (prose : Prose description) :
    ∀ line ∈ layoutLines command synopsis description, line.getLast? ≠ some '\r' := by
  refine forall_layoutLines ?_ ?_ (fun line mem => (prose.each line mem).noReturn)
    (by decide +kernel)
  · obtain ⟨front, c, chars, kept⟩ := named.last
    unfold headingLine
    rw [chars, ← List.append_assoc, List.getLast?_concat]
    intro same
    cases same
    cases kept
  · intro line mem
    obtain ⟨front, c, rfl, ends⟩ := (each line mem).last
    rw [List.getLast?_concat]
    intro same
    cases same
    exact absurd ends (by decide)

variable {synopsisText descriptionText : String}

/-- The lines of a page that was laid out. -/
theorem splitLines_layout (named : Synopsis.Writable command)
    (each : ∀ line ∈ splitNewlines synopsisText.toList, SynopsisLine line)
    (prose : Prose (splitNewlines descriptionText.toList)) :
    splitLines (layout command synopsisText descriptionText) =
      (layoutLines command (splitNewlines synopsisText.toList)
        (splitNewlines descriptionText.toList)).map String.ofList := by
  have kept := layoutLines_noReturn named each prose
  unfold splitLines
  rw [splitNewlines_layout named.oneLine]
  generalize layoutLines command _ _ = lines at kept ⊢
  refine List.map_congr_left fun line mem => ?_
  rw [Text.dropFinal_of_getLast?_ne (kept line mem)]

/-- The description of a page stands between the lines that it opens with and those that end it. -/
theorem descriptionLines_of_append {page : Page} {front middle back : List String}
    {opening closing : Nat} (whole : page.lines = front ++ (middle ++ back))
    (opens : page.description = some opening) (closes : page.returnValue = some closing)
    (top : opening + 2 = front.length) (bottom : closing - 1 = front.length + middle.length) :
    page.descriptionLines = middle := by
  unfold Page.descriptionLines
  rw [opens, closes]
  simp only
  rw [whole, top, bottom, List.take_length_add_append, List.drop_left, List.take_left]

/-- The page that a layout holds. -/
theorem ofText_layout (named : Synopsis.Writable command) (free : MarkFree command.toList)
    (each : ∀ line ∈ splitNewlines synopsisText.toList, SynopsisLine line)
    (prose : Prose (splitNewlines descriptionText.toList)) :
    Page.ofText (layout command synopsisText descriptionText) =
      ⟨(layoutLines command (splitNewlines synopsisText.toList)
          (splitNewlines descriptionText.toList)).map String.ofList,
        some (linesBefore command (splitNewlines synopsisText.toList)).length,
        some ((linesBefore command (splitNewlines synopsisText.toList)).length + 1 +
          (linesBetween (splitNewlines descriptionText.toList)).length)⟩ := by
  have unmarked : ∀ line ∈ splitNewlines descriptionText.toList, MarkFree line :=
    fun line mem => (prose.each line mem).markFree
  unfold Page.ofText
  simp only
  rw [splitLines_layout named each prose, markedLine?_description free each,
    markedLine?_returnValue free each unmarked]

/-- **A layout gives its synopsis back**, its lines put together again. -/
theorem synopsis?_layout (named : Synopsis.Writable command) (free : MarkFree command.toList)
    (each : ∀ line ∈ splitNewlines synopsisText.toList, SynopsisLine line)
    (prose : Prose (splitNewlines descriptionText.toList)) :
    (Page.ofText (layout command synopsisText descriptionText)).synopsis? synopsisAbove =
      some (String.ofList ([' '].intercalate (splitNewlines synopsisText.toList))) := by
  rw [ofText_layout named free each prose, Page.synopsis?, Option.map_some,
    synopsisAbove_layout each]

/-- **A layout gives its description back**, line by line. -/
theorem prose_layout (named : Synopsis.Writable command) (free : MarkFree command.toList)
    (each : ∀ line ∈ splitNewlines synopsisText.toList, SynopsisLine line)
    (prose : Prose (splitNewlines descriptionText.toList)) :
    (Page.ofText (layout command synopsisText descriptionText)).prose =
      (splitNewlines descriptionText.toList).map String.ofList := by
  rw [ofText_layout named free each prose]
  generalize splitNewlines synopsisText.toList = synopsis
  generalize splitNewlines descriptionText.toList = description at prose ⊢
  have whole : (layoutLines command synopsis description).map String.ofList =
      (linesBefore command synopsis ++ [descriptionMark.toList, "-----------".toList]).map
          String.ofList ++
        (("" :: description.map String.ofList) ++
          ([] :: returnValueMark.toList :: linesBehind).map String.ofList) := by
    simp [layoutLines, linesBetween]
  rw [Page.prose, descriptionLines_of_append whole rfl rfl ?_ ?_, prose.trimLines]
  · simp
  · simp [linesBetween]
    omega

end Page

end Bindery.Manual
