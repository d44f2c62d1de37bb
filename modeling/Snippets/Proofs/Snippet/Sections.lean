/-
# Snippets.Proofs.Snippet.Sections — reading line by line is cutting at headers

A reader keeps an open snippet and completes it when the next header or the end of the input comes.
Here the same snippets are described without a state: the lines are cut before every header, and
each section whose header has a name gives one snippet, read off the section as a whole. The
description and the alias are those of the last line that gives one, the body is the blank and
content lines as they stand, and the margin is the least indentation of a content line.

The main statement is `readLines_eq_ofSections`. Its induction is over the lines, for every state
the reader can be in: what is still to come is the open snippet extended by the lines up to the
next header, and then the sections that follow (`Snippet.pending`).
-/
import Mathlib.Data.List.SplitBy
import Snippets.Snippet.Reader

namespace Snippets

/-- Whether a raw line is a header. -/
def Text.isHeader (raw : Text) : Bool := (Line.ofRaw raw).isHeader

namespace Snippet

/-! ## What a row of lines gives -/

/-- The last text that one of the lines gives, when `given?` says what a line gives. -/
def lastGiven (given? : Line → Option Text) (ls : List Text) : Option Text :=
  (ls.filterMap fun raw => given? (Line.ofRaw raw)).getLast?

/-- The blank and content lines, as they stand. -/
def bodyLines (ls : List Text) : List Text := ls.filter fun raw => (Line.ofRaw raw).isBody

/-- The least indentation of a content line, if there is one. -/
def leastIndentation (ls : List Text) : Option Nat :=
  ((ls.filter fun raw => (Line.ofRaw raw).isContent).map Text.indentation).min?

@[simp] theorem lastGiven_nil (given? : Line → Option Text) : lastGiven given? [] = none := rfl

@[simp] theorem bodyLines_nil : bodyLines [] = [] := rfl

@[simp] theorem leastIndentation_nil : leastIndentation [] = none := rfl

theorem lastGiven_cons (given? : Line → Option Text) (raw : Text) (ls : List Text) :
    lastGiven given? (raw :: ls) = (lastGiven given? ls).or (given? (Line.ofRaw raw)) := by
  unfold lastGiven
  rw [List.filterMap_cons]
  cases given? (Line.ofRaw raw) with
  | none => simp
  | some text => rw [List.getLast?_cons]; cases (ls.filterMap _).getLast? <;> rfl

theorem bodyLines_cons (raw : Text) (ls : List Text) :
    bodyLines (raw :: ls) = (if (Line.ofRaw raw).isBody then [raw] else []) ++ bodyLines ls := by
  unfold bodyLines
  rw [List.filter_cons]
  split <;> rfl

theorem leastIndentation_cons (raw : Text) (ls : List Text) :
    leastIndentation (raw :: ls) =
      (if (Line.ofRaw raw).isContent then some raw.indentation else none).merge min
        (leastIndentation ls) := by
  unfold leastIndentation
  rw [List.filter_cons]
  split
  · rw [List.map_cons, List.min?_cons]
    cases ((ls.filter _).map Text.indentation).min? <;> rfl
  · simp

/-! ## Sections -/

/-- The lines cut before every header. -/
def sections (ls : List Text) : List (List Text) := ls.splitBy fun _ next => !next.isHeader

/-- The snippet with a name and the lines below its header. -/
def ofBelow (name : Text) (below : List Text) : Snippet where
  name := name
  abbr := (lastGiven Line.abbr? below).getD []
  aliasName := (lastGiven Line.aliasName? below).getD []
  body := bodyLines below
  minIndent := leastIndentation below

/-- The snippet of a section. There is none when the section does not start with a header, as the
lines before the first header do not, when its header has no name, or when the body is empty. -/
def ofSection? : List Text → Option Snippet
  | [] => none
  | first :: below =>
    match Line.ofRaw first with
    | .header (some name) => (some (ofBelow name below)).filter fun s => !s.body.isEmpty
    | _ => none

/-- The snippets of a list of lines, section by section. -/
def ofSections (ls : List Text) : List Snippet := (sections ls).filterMap ofSection?

/-- A row of lines without a header among them that something which is a header follows. -/
theorem ofSections_append {front back : List Text} (h : ∀ raw ∈ back.head?, raw.isHeader = true) :
    ofSections (front ++ back) = ofSections front ++ ofSections back := by
  unfold ofSections sections
  rw [List.splitBy_append, List.filterMap_append]
  -- what follows is a header or nothing, so there is a cut between the two rows
  intro _ _ raw hraw
  simp [h raw hraw]

/-- Lines of which only the first may be a header are one section. -/
theorem sections_of_headerless (first : Text) {below : List Text}
    (h : ∀ raw ∈ below, raw.isHeader = false) : sections (first :: below) = [first :: below] := by
  apply List.splitBy_of_isChain (by simp)
  induction below generalizing first with
  | nil => exact .singleton _
  | cons raw below ih =>
    rw [List.forall_mem_cons] at h
    exact .cons_cons (by simp [h.1]) (ih raw h.2)

/-- Lines before the first header give no snippet. -/
theorem ofSections_of_headerless {front : List Text} (h : ∀ raw ∈ front, raw.isHeader = false) :
    ofSections front = [] := by
  cases front with
  | nil => rfl
  | cons first below =>
    rw [List.forall_mem_cons] at h
    rw [ofSections, sections_of_headerless first h.2]
    have hfirst := h.1
    unfold Text.isHeader at hfirst
    cases hline : Line.ofRaw first <;> simp_all [ofSection?, Line.isHeader]

/-! ## The lines up to the next header -/

/-- The lines up to the first header. -/
def beforeHeader (ls : List Text) : List Text := ls.takeWhile fun raw => !raw.isHeader

/-- The lines from the first header on. -/
def fromHeader (ls : List Text) : List Text := ls.dropWhile fun raw => !raw.isHeader

theorem isHeader_of_mem_beforeHeader {ls : List Text} {raw : Text} (h : raw ∈ beforeHeader ls) :
    raw.isHeader = false := by
  simpa using List.all_eq_true.mp List.all_takeWhile raw h

theorem isHeader_of_head?_fromHeader {ls : List Text} {raw : Text}
    (h : raw ∈ (fromHeader ls).head?) : raw.isHeader = true := by
  have hhead := List.head?_dropWhile_not (fun raw : Text => !raw.isHeader) ls
  rw [show (ls.dropWhile _).head? = some raw from h] at hhead
  simpa using hhead

theorem beforeHeader_append_fromHeader (ls : List Text) : beforeHeader ls ++ fromHeader ls = ls :=
  List.takeWhile_append_dropWhile

/-- The sections do not see the lines before the first header. -/
theorem ofSections_fromHeader (ls : List Text) : ofSections (fromHeader ls) = ofSections ls := by
  calc ofSections (fromHeader ls)
      = ofSections (beforeHeader ls) ++ ofSections (fromHeader ls) := by
        rw [ofSections_of_headerless fun _ => isHeader_of_mem_beforeHeader, List.nil_append]
    _ = ofSections (beforeHeader ls ++ fromHeader ls) :=
        (ofSections_append fun _ => isHeader_of_head?_fromHeader).symm
    _ = ofSections ls := by rw [beforeHeader_append_fromHeader]

/-- The section of a header reaches up to the next one. -/
theorem ofSections_cons (first : Text) (ls : List Text) :
    ofSections (first :: ls) = (ofSection? (first :: beforeHeader ls)).toList ++ ofSections ls := by
  calc ofSections (first :: ls)
      = ofSections ((first :: beforeHeader ls) ++ fromHeader ls) := by
        rw [List.cons_append, beforeHeader_append_fromHeader]
    _ = ofSections (first :: beforeHeader ls) ++ ofSections (fromHeader ls) :=
        ofSections_append fun _ => isHeader_of_head?_fromHeader
    _ = (ofSection? (first :: beforeHeader ls)).toList ++ ofSections ls := by
        rw [ofSections_fromHeader, ofSections.eq_1 (first :: beforeHeader ls),
          sections_of_headerless first fun _ => isHeader_of_mem_beforeHeader]
        cases h : ofSection? (first :: beforeHeader ls) <;> simp [h]

/-! ## The open snippet -/

/-- An open snippet with more lines, none of them a header. -/
def extend (s : Snippet) (ls : List Text) : Snippet where
  name := s.name
  abbr := (lastGiven Line.abbr? ls).getD s.abbr
  aliasName := (lastGiven Line.aliasName? ls).getD s.aliasName
  body := s.body ++ bodyLines ls
  minIndent := s.minIndent.merge min (leastIndentation ls)

@[simp] theorem extend_nil (s : Snippet) : s.extend [] = s := by
  simp [extend]

theorem extend_named (name : Text) (ls : List Text) : (named name).extend ls = ofBelow name ls := by
  simp [extend, ofBelow, named]

theorem extend_cons (s : Snippet) (raw : Text) (ls : List Text) :
    s.extend (raw :: ls) = (s.extend [raw]).extend ls := by
  have hmin : ∀ a b c : Option Nat, (a.merge min b).merge min c = a.merge min (b.merge min c) :=
    Std.Associative.assoc
  simp only [extend, lastGiven_cons, bodyLines_cons, leastIndentation_cons, lastGiven_nil,
    bodyLines_nil, leastIndentation_nil, Option.none_or, Option.getD_or, List.append_nil,
    List.append_assoc, Option.merge_none_right, hmin]

end Snippet

namespace Reader

open Snippet

/-- A line that is no header extends the open snippet. -/
theorem readLine_of_not_header {raw : Text} (h : raw.isHeader = false) (done : List Snippet)
    (current : Option Snippet) :
    readLine ⟨done, current⟩ raw = ⟨done, current.map (·.extend [raw])⟩ := by
  unfold Text.isHeader at h
  unfold readLine extend
  simp only [lastGiven_cons, bodyLines_cons, leastIndentation_cons, lastGiven_nil, bodyLines_nil,
    leastIndentation_nil, Option.none_or, List.append_nil, Option.merge_none_right]
  cases hline : Line.ofRaw raw with
  | header name => exact absurd h (by simp [hline, Line.isHeader])
  | content =>
    -- the only line that touches the margin: the least one so far may be missing
    rcases current with - | ⟨name, abbr, aliasName, body, minIndent⟩
    · rfl
    · cases minIndent <;>
        simp [Line.abbr?, Line.aliasName?, Line.isBody, Line.isContent, pushLine]
  | _ => simp [Line.abbr?, Line.aliasName?, Line.isBody, Line.isContent, pushLine]

/-- A header completes the open snippet and opens the next one, if it has a name. -/
theorem readLine_of_header {raw : Text} {name : Option Text} (h : Line.ofRaw raw = .header name)
    (done : List Snippet) (current : Option Snippet) :
    readLine ⟨done, current⟩ raw = ⟨done ++ closing current, name.map named⟩ := by
  rw [readLine, h]
  rfl

/-- What a reader with an open snippet will have given at the end of the lines to come, beyond what
it has completed. -/
def pending (current : Option Snippet) (ls : List Text) : List Snippet :=
  closing (current.map (·.extend (beforeHeader ls))) ++ ofSections ls

theorem pending_of_not_header {raw : Text} (h : raw.isHeader = false) (current : Option Snippet)
    (ls : List Text) :
    pending (current.map (·.extend [raw])) ls = pending current (raw :: ls) := by
  have hbefore : beforeHeader (raw :: ls) = raw :: beforeHeader ls := by simp [beforeHeader, h]
  have hfrom : fromHeader (raw :: ls) = fromHeader ls := by simp [fromHeader, h]
  have hsections : ofSections (raw :: ls) = ofSections ls := by
    rw [← ofSections_fromHeader (raw :: ls), hfrom, ofSections_fromHeader]
  unfold pending
  rw [hbefore, hsections, Option.map_map]
  congr 3
  funext s
  exact (extend_cons s raw (beforeHeader ls)).symm

theorem pending_of_header {raw : Text} {name : Option Text} (h : Line.ofRaw raw = .header name)
    (current : Option Snippet) (ls : List Text) :
    closing current ++ pending (name.map named) ls = pending current (raw :: ls) := by
  have hheader : raw.isHeader = true := by simp [Text.isHeader, h, Line.isHeader]
  have hbefore : beforeHeader (raw :: ls) = [] := by simp [beforeHeader, hheader]
  have hsection : ofSection? (raw :: beforeHeader ls) =
      (name.map fun name => ofBelow name (beforeHeader ls)).filter fun s => !s.body.isEmpty := by
    cases name <;> simp [ofSection?, h]
  unfold pending
  rw [hbefore, ofSections_cons, hsection]
  simp [closing, Function.comp_def, extend_named]

/-- Reading from any state: the snippets completed before, the open one with the lines up to the
next header, and then the sections. -/
theorem snippets_readLines (done : List Snippet) (current : Option Snippet) (ls : List Text) :
    (readLines ⟨done, current⟩ ls).snippets = done ++ pending current ls := by
  -- over the lines, for every state: a line that is no header goes to the open snippet, and a header
  -- moves the open snippet to the completed ones
  induction ls generalizing done current with
  | nil => simp [snippets, pending, beforeHeader, ofSections, sections]
  | cons raw ls ih =>
    rw [readLines_cons]
    cases hheader : raw.isHeader with
    | false =>
      rw [readLine_of_not_header hheader, ih, pending_of_not_header hheader]
    | true =>
      obtain ⟨name, hname⟩ : ∃ name, Line.ofRaw raw = .header name := by
        unfold Text.isHeader at hheader
        cases hline : Line.ofRaw raw <;> simp_all [Line.isHeader]
      rw [readLine_of_header hname, ih, List.append_assoc, pending_of_header hname]

/-- A comment changes nothing, so reading does not see it. -/
theorem readLines_filter_comment (r : Reader) (ls : List Text) :
    r.readLines (ls.filter fun raw => !(Line.ofRaw raw).isComment) = r.readLines ls := by
  induction ls generalizing r with
  | nil => rfl
  | cons raw ls ih =>
    rw [List.filter_cons]
    cases hcomment : (Line.ofRaw raw).isComment with
    | false => exact ih (r.readLine raw)
    | true =>
      have hline : Line.ofRaw raw = .comment := by
        cases hline : Line.ofRaw raw <;> simp_all [Line.isComment]
      have hstay : r.readLine raw = r := by rw [readLine, hline]
      rw [readLines_cons, hstay]
      exact ih r

end Reader

/-- **Reading is cutting.** The snippets read line by line are those of the sections of the lines,
comments leave no trace, and a text is read as its lines are. -/
theorem readLines_eq_ofSections :
    (∀ ls : List Text, (Reader.empty.readLines ls).snippets =
      (Snippet.sections ls).filterMap Snippet.ofSection?) ∧
    (∀ ls : List Text, (Reader.empty.readLines ls).snippets =
      (Reader.empty.readLines (ls.filter fun raw => !(Line.ofRaw raw).isComment)).snippets) ∧
    ∀ s : Text, Snippet.ofText s = (Snippet.sections s.lines).filterMap Snippet.ofSection? := by
  have hread : ∀ ls : List Text, (Reader.empty.readLines ls).snippets =
      (Snippet.sections ls).filterMap Snippet.ofSection? := by
    intro ls
    exact Reader.snippets_readLines [] none ls
  refine ⟨hread, ?_, ?_⟩
  · intro ls
    rw [Reader.readLines_filter_comment]
  · intro s
    exact hread s.lines

end Snippets
