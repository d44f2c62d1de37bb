/-
# Snippets.Proofs.Placeholder.Division — tokens are found leftmost and do not overlap

A text is told apart into gaps with tokens between them (`Division`). The division is leftmost when no
token begins inside a gap, read together with the text behind the gap. Every text has exactly one
leftmost division, and its tokens are the tokens of the text
(`exists_leftmost_division`): so scanning from left to right, which commits itself to each token that it
comes to, misses no token that could be found otherwise.

A division and its row of pieces are two ways to write the same: a gap is a row of plain characters.
Leftmost divisions are the scanned rows (`scanned_pieces_iff`), and a text has only one of these.
-/
import Snippets.Proofs.Placeholder.Scan

namespace Snippets.Placeholder

/-! ## Deciding what a gap is -/

/-- Gaps are found with the scanner. -/
theorem isGap_iff_token? {gap rest : Text} :
    IsGap gap rest ↔ ∀ i < gap.length, token? (gap.drop i ++ rest) = none := by
  simp only [IsGap, token?_eq_none_iff]

instance (gap rest : Text) : Decidable (IsGap gap rest) :=
  decidable_of_iff (∀ i < gap.length, token? (gap.drop i ++ rest) = none) isGap_iff_token?.symm

instance (t : Text) : Decidable (IsToken t) :=
  decidable_of_iff (token? t = some t) (token?_eq_some_iff.trans (and_iff_left List.prefix_rfl))

/-! ## Divisions -/

/-- A text told apart into gaps with tokens between them. -/
inductive Division where
  /-- The last gap. -/
  | last (gap : Text)
  /-- A gap, the token behind it, and the division of what is left. -/
  | next (gap token : Text) (rest : Division)
deriving DecidableEq, Repr

namespace Division

/-- The text that is told apart. -/
def text : Division → Text
  | last gap => gap
  | next gap token rest => gap ++ (token ++ rest.text)

/-- The tokens of a division, in order. -/
def tokens : Division → List Text
  | last _ => []
  | next _ token rest => token :: rest.tokens

/-- Every token is one by its shape, and none begins inside a gap. -/
def IsLeftmost : Division → Prop
  | last gap => IsGap gap []
  | next gap token rest => IsToken token ∧ IsGap gap (token ++ rest.text) ∧ rest.IsLeftmost

instance decidableIsLeftmost : (d : Division) → Decidable d.IsLeftmost
  | last gap => inferInstanceAs (Decidable (IsGap gap []))
  | next gap token rest =>
    have := decidableIsLeftmost rest
    inferInstanceAs (Decidable (IsToken token ∧ IsGap gap (token ++ rest.text) ∧ rest.IsLeftmost))

/-- The row of pieces of a division. -/
def pieces : Division → List Piece
  | last gap => gap.map Piece.plain
  | next gap token rest => gap.map Piece.plain ++ .token token :: rest.pieces

/-- The division with one more character at its start. -/
def cons (c : Char) : Division → Division
  | last gap => last (c :: gap)
  | next gap token rest => next (c :: gap) token rest

/-- The division with a given row of pieces. -/
def ofPieces : List Piece → Division
  | [] => last []
  | .plain c :: ps => (ofPieces ps).cons c
  | .token t :: ps => next [] t (ofPieces ps)

theorem pieces_cons (c : Char) (d : Division) : (d.cons c).pieces = .plain c :: d.pieces := by
  cases d <;> rfl

theorem pieces_ofPieces (ps : List Piece) : (ofPieces ps).pieces = ps := by
  induction ps with
  | nil => rfl
  | cons p ps ih =>
    cases p with
    | plain c => rw [ofPieces, pieces_cons, ih]
    | token t => rw [ofPieces, pieces, ih, List.map_nil, List.nil_append]

theorem ofPieces_plain_append_token (gap t : Text) (ps : List Piece) :
    ofPieces (gap.map Piece.plain ++ .token t :: ps) = next gap t (ofPieces ps) := by
  induction gap with
  | nil => rfl
  | cons c gap ih => rw [List.map_cons, List.cons_append, ofPieces, ih, cons]

theorem ofPieces_plain (gap : Text) : ofPieces (gap.map Piece.plain) = last gap := by
  induction gap with
  | nil => rfl
  | cons c gap ih => rw [List.map_cons, ofPieces, ih, cons]

theorem ofPieces_pieces (d : Division) : ofPieces d.pieces = d := by
  induction d with
  | last gap => exact ofPieces_plain gap
  | next gap token rest ih => rw [pieces, ofPieces_plain_append_token, ih]

theorem flatMap_text_pieces (d : Division) : d.pieces.flatMap Piece.text = d.text := by
  induction d with
  | last gap => exact flatMap_text_plain gap
  | next gap token rest ih =>
    rw [pieces, List.flatMap_append, flatMap_text_plain, List.flatMap_cons, ih, text, Piece.text]

theorem filterMap_token?_pieces (d : Division) : d.pieces.filterMap Piece.token? = d.tokens := by
  induction d with
  | last gap => exact filterMap_token?_plain gap
  | next gap token rest ih =>
    rw [pieces, List.filterMap_append, filterMap_token?_plain, List.nil_append, tokens, ← ih]
    rfl

/-- The leftmost divisions are those whose pieces are a scanned row. -/
theorem scanned_pieces_iff {d : Division} : Scanned d.pieces ↔ d.IsLeftmost := by
  induction d with
  | last gap =>
    have happend : (last gap).pieces = gap.map Piece.plain ++ [] := (List.append_nil _).symm
    rw [happend, scanned_plain_append_iff]
    exact and_iff_left .nil
  | next gap token rest ih =>
    rw [pieces, scanned_plain_append_iff, List.flatMap_cons, flatMap_text_pieces, IsLeftmost, ← ih]
    constructor
    · rintro ⟨hgap, hscanned⟩
      cases hscanned with
      | token htoken hrest => exact ⟨htoken, hgap, hrest⟩
    · rintro ⟨htoken, hgap, hrest⟩
      exact ⟨hgap, .token htoken hrest⟩

/-- The pieces of a leftmost division are those of its text. -/
theorem pieces_text {d : Division} (h : d.IsLeftmost) : Placeholder.pieces d.text = d.pieces :=
  pieces_eq_iff.mpr ⟨scanned_pieces_iff.mpr h, flatMap_text_pieces d⟩

/-- A leftmost division is the one that is read off the pieces of its text. -/
theorem eq_ofPieces {d : Division} (h : d.IsLeftmost) :
    d = ofPieces (Placeholder.pieces d.text) := by
  rw [pieces_text h, ofPieces_pieces]

/-- The tokens of a leftmost division are those of its text. -/
theorem tokens_text {d : Division} (h : d.IsLeftmost) : Placeholder.tokens d.text = d.tokens := by
  rw [Placeholder.tokens, pieces_text h, filterMap_token?_pieces]

/-- The division that is read off the pieces of a text is leftmost. -/
theorem isLeftmost_ofPieces (s : Text) : (ofPieces (Placeholder.pieces s)).IsLeftmost := by
  rw [← scanned_pieces_iff, pieces_ofPieces]
  exact scanned_pieces s

theorem text_ofPieces (s : Text) : (ofPieces (Placeholder.pieces s)).text = s := by
  rw [← flatMap_text_pieces, pieces_ofPieces, Placeholder.flatMap_text_pieces]

end Division

/-- **Every text has exactly one leftmost division**, and its tokens are those of the text. In
particular a digit ends its token, braces hide what begins inside them up to the first closing brace,
braces that are not closed on their line hide nothing, and neither does a gap. -/
theorem exists_leftmost_division :
    (∀ s : Text, ∃ d : Division, (d.IsLeftmost ∧ d.text = s) ∧ d.tokens = tokens s ∧
      ∀ e : Division, e.IsLeftmost → e.text = s → e = d) ∧
    (∀ (c : Char) (rest : Text), Text.isDecimalDigit c = true →
      tokens ('$' :: c :: rest) = ['$', c] :: tokens rest) ∧
    (∀ inner rest : Text, (∀ c ∈ inner, isInner c = true) →
      tokens ('$' :: '{' :: (inner ++ '}' :: rest)) = ('$' :: '{' :: (inner ++ ['}'])) :: tokens rest) ∧
    (∀ inner rest : Text, (∀ c ∈ inner, isInner c = true) → (∀ c ∈ rest.head?, c = '\n') →
      tokens ('$' :: '{' :: (inner ++ rest)) = tokens (inner ++ rest)) ∧
    ∀ gap rest : Text, IsGap gap rest → tokens (gap ++ rest) = tokens rest := by
  refine ⟨fun s => ?_, ?_, ?_, ?_, fun gap rest => tokens_append_of_isGap⟩
  · have hleftmost : (Division.ofPieces (pieces s)).IsLeftmost := Division.isLeftmost_ofPieces s
    have htext : (Division.ofPieces (pieces s)).text = s := Division.text_ofPieces s
    refine ⟨Division.ofPieces (pieces s), ⟨hleftmost, htext⟩, ?_, ?_⟩
    · rw [← Division.tokens_text hleftmost, htext]
    · rintro e he rfl
      exact Division.eq_ofPieces he
  · intro c rest hc
    exact tokens_append_of_isToken (.digit hc) rest
  · intro inner rest hinner
    have htoken := tokens_append_of_isToken (.braced hinner) rest
    simpa using htoken
  · intro inner rest hinner hrest
    exact tokens_append_of_isGap (isGap_unclosed hinner hrest)

/-- A digit behind a digit, a token inside braces, and braces that are left open at the end of a line;
braces are written by their numbers. -/
theorem exists_leftmost_division_open_braces :
    let s := "a$13$\x7bx$1$\x7by\x7d$\x7bz\n$2".toList
    let d : Division := .next ['a'] "$1".toList
      (.next ['3'] "$\x7bx$1$\x7by\x7d".toList (.next "$\x7bz\n".toList "$2".toList (.last [])))
    d.IsLeftmost ∧ d.text = s ∧ tokens s = d.tokens ∧
      (∀ e : Division, e.IsLeftmost → e.text = s → e = d) ∧
      tokens "$\x7bz\n$2".toList = tokens "z\n$2".toList := by
  intro s d
  obtain ⟨hdivision, -, -, hopen, -⟩ := exists_leftmost_division
  have hleftmost : d.IsLeftmost := by decide
  obtain ⟨e, -, htokens, hunique⟩ := hdivision s
  obtain rfl : d = e := hunique d hleftmost rfl
  have hinner : ∀ c ∈ ['z'], isInner c = true := List.forall_mem_singleton.mpr rfl
  have hrest : ∀ c ∈ "\n$2".toList.head?, c = '\n' := by simp
  exact ⟨hleftmost, rfl, htokens.symm, hunique, hopen ['z'] "\n$2".toList hinner hrest⟩

end Snippets.Placeholder
