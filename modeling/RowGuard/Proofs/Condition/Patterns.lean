import Mathlib.Data.List.Infix
import Mathlib.Data.List.Forall2
import RowGuard.Condition.Match

/-! # What LIKE patterns match

A text matches a pattern exactly if the pattern covers it.  The matcher keeps one row of suffixes of
the text for each suffix of the pattern; the invariant is that the row tells which of them the rest
of the pattern covers.  The same texts are found by the regular expression written for a pattern,
read with its escapes, its anchors and a dot that stands for no line feed.
-/
namespace RowGuard

namespace Pattern
variable {alike : Char → Char → Bool} {pattern text : List Char} {row : List Bool}
  {P : List Char → Prop}

theorem covers_nil_iff : Covers alike [] text ↔ text = [] := by
  constructor
  · rintro ⟨⟩
    rfl
  · rintro rfl
    exact .nil

theorem covers_cons_iff {p : Char} {ps : List Char} :
    Covers alike (p :: ps) text ↔
      ∃ piece rest, text = piece ++ rest ∧ PieceOf alike p piece ∧ Covers alike ps rest := by
  constructor
  · rintro (_ | ⟨hp, hr⟩)
    exact ⟨_, _, rfl, hp, hr⟩
  · rintro ⟨piece, rest, rfl, hp, hr⟩
    exact .cons hp hr

/-- A pattern covers a text if the text is put together from pieces, one for each character. -/
theorem covers_iff_pieces :
    Covers alike pattern text ↔
      ∃ pieces, List.Forall₂ (PieceOf alike) pattern pieces ∧ pieces.flatten = text := by
  constructor
  · intro h
    induction h with
    | nil => exact ⟨[], .nil, rfl⟩
    | cons hp _ ih =>
      obtain ⟨pieces, hall, rfl⟩ := ih
      exact ⟨_ :: pieces, .cons hp hall, rfl⟩
  · rintro ⟨pieces, hall, rfl⟩
    induction hall with
    | nil => exact .nil
    | cons hp _ ih => exact .cons hp ih

/-! ## Rows of suffixes -/

/-- A row that tells of each suffix of a text, the longest first, whether it has a property. -/
def Tells (row : List Bool) (text : List Char) (P : List Char → Prop) : Prop :=
  List.Forall₂ (fun b suffix => b = true ↔ P suffix) row text.tails

@[simp] theorem tells_nil : Tells row [] P ↔ ∃ b, (b = true ↔ P []) ∧ row = [b] := by
  simp [Tells, List.forall₂_cons_right_iff]

@[simp] theorem tells_cons {c : Char} {t : List Char} :
    Tells row (c :: t) P ↔ ∃ b bs, (b = true ↔ P (c :: t)) ∧ Tells bs t P ∧ row = b :: bs := by
  simp [Tells, List.forall₂_cons_right_iff]

theorem Tells.head (h : Tells row text P) : row.headD false = true ↔ P text := by
  cases text with
  | nil => obtain ⟨b, hb, rfl⟩ := tells_nil.1 h; exact hb
  | cons => obtain ⟨b, bs, hb, -, rfl⟩ := tells_cons.1 h; exact hb

theorem Tells.congr {Q : List Char → Prop} (h : Tells row text P) (hpq : ∀ s, P s ↔ Q s) :
    Tells row text Q := by
  rwa [← funext fun s => propext (hpq s)]

theorem tells_endRow : ∀ text, Tells (endRow text) text (· = [])
  | [] => by simp [endRow]
  | c :: t => by simp [endRow, tells_endRow t]

theorem Tells.stepRow {test : Char → Bool} (h : Tells row text P) :
    Tells (stepRow test text row) text
      fun s => ∃ piece rest, s = piece ++ rest ∧ (∃ c, piece = [c] ∧ test c = true) ∧ P rest := by
  induction text generalizing row with
  | nil =>
    obtain ⟨b, -, rfl⟩ := tells_nil.1 h
    simp [Pattern.stepRow]
  | cons c t ih =>
    obtain ⟨b, bs, -, hbs, rfl⟩ := tells_cons.1 h
    refine tells_cons.2 ⟨_, _, ?_, ih hbs, rfl⟩
    rw [Bool.and_eq_true, hbs.head]
    constructor
    · rintro ⟨hc, hp⟩
      exact ⟨[c], t, rfl, ⟨c, rfl, hc⟩, hp⟩
    · rintro ⟨_, rest, hs, ⟨d, rfl, hd⟩, hp⟩
      obtain ⟨rfl, rfl⟩ := List.cons.inj hs
      exact ⟨hd, hp⟩

theorem Tells.freeRow (h : Tells row text P) :
    Tells (freeRow text row) text
      fun s => ∃ piece rest, s = piece ++ rest ∧ (∀ c ∈ piece, isFree c = true) ∧ P rest := by
  induction text generalizing row with
  | nil =>
    obtain ⟨b, hb, rfl⟩ := tells_nil.1 h
    refine tells_nil.2 ⟨b, ?_, rfl⟩
    rw [hb]
    constructor
    · exact fun hp => ⟨[], [], rfl, by simp, hp⟩
    · rintro ⟨piece, rest, hs, -, hp⟩
      rwa [(List.append_eq_nil_iff.1 hs.symm).2] at hp
  | cons c t ih =>
    obtain ⟨b, bs, hb, hbs, rfl⟩ := tells_cons.1 h
    refine tells_cons.2 ⟨_, _, ?_, ih hbs, rfl⟩
    -- The piece is empty, or it begins with the first character and goes on as a shorter piece.
    rw [Bool.or_eq_true, Bool.and_eq_true, hb, (ih hbs).head]
    constructor
    · rintro (hp | ⟨hc, piece, rest, rfl, hfree, hp⟩)
      · exact ⟨[], c :: t, rfl, by simp, hp⟩
      · exact ⟨c :: piece, rest, rfl, List.forall_mem_cons.2 ⟨hc, hfree⟩, hp⟩
    · rintro ⟨piece, rest, hs, hfree, hp⟩
      cases piece with
      | nil => exact .inl (by simpa [hs] using hp)
      | cons d piece =>
        obtain ⟨rfl, rfl⟩ := List.cons.inj hs
        obtain ⟨hd, hfree⟩ := List.forall_mem_cons.1 hfree
        exact .inr ⟨hd, piece, rest, rfl, hfree, hp⟩

/-- Each row of the matcher tells which suffixes of the text its rest of the pattern covers. -/
theorem tells_coverRow : ∀ pattern, Tells (coverRow alike text pattern) text (Covers alike pattern)
  | [] => (tells_endRow text).congr fun _ => covers_nil_iff.symm
  | p :: ps => by
    have ih := tells_coverRow ps
    unfold coverRow
    simp only []
    split_ifs with hmany hone
    · refine ih.freeRow.congr fun s => ?_
      simp only [covers_cons_iff, PieceOf, if_pos hmany]
    · refine ih.stepRow.congr fun s => ?_
      simp only [covers_cons_iff, PieceOf, if_neg hmany, if_pos hone]
    · refine ih.stepRow.congr fun s => ?_
      simp only [covers_cons_iff, PieceOf, if_neg hmany, if_neg hone]

theorem covers_iff : covers alike pattern text = true ↔ Covers alike pattern text :=
  (tells_coverRow pattern).head

instance : Decidable (Covers alike pattern text) := decidable_of_iff _ covers_iff

example : Covers (· == ·) "a.b(%)".toList "a.b(c)".toList := by decide

/-! ## Comparing characters -/

theorem Covers.mono {alike' : Char → Char → Bool}
    (hle : ∀ p c, alike p c = true → alike' p c = true) (h : Covers alike pattern text) :
    Covers alike' pattern text := by
  induction h with
  | nil => exact .nil
  | cons hp _ ih =>
    refine .cons ?_ ih
    unfold PieceOf at hp ⊢
    split_ifs at hp ⊢
    · exact hp
    · exact hp
    · exact hp.imp fun c hc => ⟨hc.1, hle _ _ hc.2⟩

/-- A pattern without wildcards covers the texts that are like it, character by character. -/
theorem covers_iff_of_no_wildcard (h : ∀ p ∈ pattern, p ≠ '%' ∧ p ≠ '_') :
    Covers alike pattern text ↔ List.Forall₂ (fun p c => alike p c = true) pattern text := by
  induction pattern generalizing text with
  | nil => rw [covers_nil_iff, List.forall₂_nil_left_iff]
  | cons p ps ih =>
    obtain ⟨⟨hmany, hone⟩, hps⟩ := List.forall_mem_cons.1 h
    simp only [covers_cons_iff, PieceOf, if_neg hmany, if_neg hone, ih hps,
      List.forall₂_cons_left_iff]
    constructor
    · rintro ⟨_, rest, rfl, ⟨c, rfl, hc⟩, hr⟩
      exact ⟨c, rest, hc, hr, rfl⟩
    · rintro ⟨c, rest, hc, hr, rfl⟩
      exact ⟨[c], rest, rfl, ⟨c, rfl, hc⟩, hr⟩

end Pattern

/-! ## Regular expressions -/

/-- A regular expression, as far as patterns need it. -/
inductive Regex
  | empty
  | start
  | finish
  | any
  | literal (c : Char)
  | seq (e f : Regex)
  | star (e : Regex)

namespace Regex
open Pattern

/-- Some text of an expression and what stands before and after it, where the anchors look. -/
inductive Spans (alike : Char → Char → Bool) : Regex → List Char → List Char → List Char → Prop
  | empty {before after : List Char} : Spans alike empty before [] after
  | start {after : List Char} : Spans alike start [] [] after
  | finish {before : List Char} : Spans alike finish before [] []
  | any {c : Char} {before after : List Char} : c ≠ '\n' → Spans alike any before [c] after
  | literal {p c : Char} {before after : List Char} :
      alike p c = true → Spans alike (literal p) before [c] after
  | seq {e f : Regex} {before piece rest after : List Char} :
      Spans alike e before piece (rest ++ after) → Spans alike f (before ++ piece) rest after →
      Spans alike (seq e f) before (piece ++ rest) after
  | done {e : Regex} {before after : List Char} : Spans alike (star e) before [] after
  | again {e : Regex} {before piece rest after : List Char} :
      Spans alike e before piece (rest ++ after) →
      Spans alike (star e) (before ++ piece) rest after →
      Spans alike (star e) before (piece ++ rest) after

/-- An expression finds a text if it spans some part of it. -/
def Finds (alike : Char → Char → Bool) (e : Regex) (text : List Char) : Prop :=
  ∃ before piece after, text = before ++ piece ++ after ∧ e.Spans alike before piece after

/-- An expression and then another, if a text is read as one. -/
def andThen (e : Regex) : Option Regex → Option Regex := Option.map (seq e)

/-- The tokens of a regular expression: what stands for a part of a text, and the repetition. -/
inductive Token
  | part (e : Regex)
  | repeated

/-- The tokens of a text.  A backslash takes the meaning from the character after it; any other
character that has one must be an anchor, a dot or a star. -/
def tokens : List Char → Option (List Token)
  | [] => some []
  | '\\' :: c :: rest => if isSpecial c then (tokens rest).map (.part (.literal c) :: ·) else none
  | c :: rest =>
    if c = '^' then (tokens rest).map (.part .start :: ·)
    else if c = '$' then (tokens rest).map (.part .finish :: ·)
    else if c = '.' then (tokens rest).map (.part .any :: ·)
    else if c = '*' then (tokens rest).map (.repeated :: ·)
    else if isSpecial c then none
    else (tokens rest).map (.part (.literal c) :: ·)

/-- The expression that tokens make: a star repeats the part before it. -/
def ofTokens : List Token → Option Regex
  | [] => some .empty
  | .part e :: .repeated :: rest => (ofTokens rest).map (.seq (.star e))
  | .part e :: rest => (ofTokens rest).map (.seq e)
  | .repeated :: _ => none

def read? (text : String) : Option Regex := (tokens text.toList).bind ofTokens

/-! ## The expression of a pattern -/

/-- What the expression of a pattern has for one of its characters. -/
def written (p : Char) : List Char :=
  if p = '%' then ['.', '*'] else if p = '_' then ['.'] else if isSpecial p then ['\\', p] else [p]

theorem toList_toRegex (pattern : String) :
    (toRegex pattern).toList = '^' :: pattern.toList.flatMap written ++ ['$'] :=
  String.toList_ofList

/-- The tokens of one character of a pattern. -/
def tokensOf (p : Char) : List Token :=
  if p = '%' then [.part .any, .repeated]
  else if p = '_' then [.part .any]
  else [.part (.literal p)]

/-- The part that stands for one character of a pattern. -/
def partOf (p : Char) : Regex :=
  if p = '%' then .star .any else if p = '_' then .any else .literal p

/-- The parts for the characters of a pattern, up to the end of the text. -/
def ofPattern : List Char → Regex
  | [] => .seq .finish .empty
  | p :: ps => .seq (partOf p) (ofPattern ps)

theorem tokens_literal {c : Char} {rest : List Char} (h : ¬ isSpecial c = true) :
    tokens (c :: rest) = (tokens rest).map (.part (.literal c) :: ·) := by
  have hne : ∀ d, isSpecial d = true → c ≠ d := fun d hd hc => h (hc ▸ hd)
  rw [tokens]
  · rw [if_neg (hne _ rfl), if_neg (hne _ rfl), if_neg (hne _ rfl), if_neg (hne _ rfl), if_neg h]
  · exact fun _ _ hc => (hne _ rfl hc).elim

/-- The characters written for one of a pattern are read as its tokens. -/
theorem tokens_written (p : Char) (rest : List Char) :
    tokens (written p ++ rest) = (tokens rest).map (tokensOf p ++ ·) := by
  unfold written tokensOf
  split_ifs with hmany hone hspecial
  · simp [tokens, Function.comp_def]
  · simp [tokens]
  · simp [tokens, hspecial]
  · simp [tokens_literal hspecial]

theorem tokens_flatMap_written (ps rest : List Char) :
    tokens (ps.flatMap written ++ rest) = (tokens rest).map (ps.flatMap tokensOf ++ ·) := by
  induction ps with
  | nil => simp
  | cons p ps ih => simp [tokens_written, ih, Function.comp_def]

theorem ofTokens_part {e : Regex} {ts : List Token} (h : ∀ rest, ts ≠ .repeated :: rest) :
    ofTokens (.part e :: ts) = (ofTokens ts).map (.seq e) := by
  rw [ofTokens]
  exact fun rest hts => h rest hts

/-- A star belongs to the character it is written for: no character begins with one. -/
theorem flatMap_tokensOf_ne_repeated (ps : List Char) (rest : List Token) :
    ps.flatMap tokensOf ++ [.part .finish] ≠ .repeated :: rest := by
  cases ps with
  | nil => simp
  | cons p ps =>
    rw [List.flatMap_cons, tokensOf]
    split_ifs <;> simp

theorem ofTokens_flatMap_tokensOf : ∀ ps,
    ofTokens (ps.flatMap tokensOf ++ [.part .finish]) = some (ofPattern ps)
  | [] => rfl
  | p :: ps => by
    have ih := ofTokens_flatMap_tokensOf ps
    rw [List.flatMap_cons, List.append_assoc, ofPattern, tokensOf, partOf]
    split_ifs
    · simp [ofTokens, ih]
    · simp [ofTokens_part (flatMap_tokensOf_ne_repeated ps), ih]
    · simp [ofTokens_part (flatMap_tokensOf_ne_repeated ps), ih]

/-- The expression written for a pattern is read as its parts between the two anchors. -/
theorem read?_toRegex (pattern : String) :
    read? (toRegex pattern) = some (.seq .start (ofPattern pattern.toList)) := by
  have htokens : tokens (toRegex pattern).toList =
      some (.part .start :: (pattern.toList.flatMap tokensOf ++ [.part .finish])) := by
    simp [toList_toRegex, tokens, tokens_flatMap_written]
  rw [read?, htokens, Option.bind_some, ofTokens_part (flatMap_tokensOf_ne_repeated _),
    ofTokens_flatMap_tokensOf, Option.map_some]

variable {alike : Char → Char → Bool} {before piece after : List Char}

theorem spans_seq_iff {e f : Regex} :
    (seq e f).Spans alike before piece after ↔
      ∃ first second, piece = first ++ second ∧ e.Spans alike before first (second ++ after) ∧
        f.Spans alike (before ++ first) second after := by
  constructor
  · rintro ⟨⟩
    exact ⟨_, _, rfl, ‹_›, ‹_›⟩
  · rintro ⟨first, second, rfl, he, hf⟩
    exact .seq he hf

theorem spans_any_iff : Regex.any.Spans alike before piece after ↔ ∃ c, piece = [c] ∧ c ≠ '\n' := by
  constructor
  · rintro ⟨⟩
    exact ⟨_, rfl, ‹_›⟩
  · rintro ⟨c, rfl, hc⟩
    exact .any hc

theorem spans_literal_iff {p : Char} :
    (literal p).Spans alike before piece after ↔ ∃ c, piece = [c] ∧ alike p c = true := by
  constructor
  · rintro ⟨⟩
    exact ⟨_, rfl, ‹_›⟩
  · rintro ⟨c, rfl, hc⟩
    exact .literal hc

theorem spans_star_any_iff :
    (star .any).Spans alike before piece after ↔ ∀ c ∈ piece, c ≠ '\n' := by
  constructor
  · intro h
    generalize he : star .any = e at h
    induction h with
    | done => simp
    | again hpiece _ _ ih =>
      cases he
      obtain ⟨c, rfl, hc⟩ := spans_any_iff.1 hpiece
      exact List.forall_mem_cons.2 ⟨hc, ih rfl⟩
    | _ => cases he
  · induction piece generalizing before with
    | nil => exact fun _ => .done
    | cons c piece ih =>
      intro h
      obtain ⟨hc, hpiece⟩ := List.forall_mem_cons.1 h
      have hfirst : Regex.any.Spans alike before [c] (piece ++ after) := .any hc
      exact .again hfirst (ih hpiece)

theorem spans_partOf_iff {p : Char} :
    (partOf p).Spans alike before piece after ↔ PieceOf alike p piece := by
  unfold partOf PieceOf
  split_ifs
  · simp [spans_star_any_iff, isFree]
  · simp [spans_any_iff, isFree]
  · exact spans_literal_iff

theorem spans_ofPattern_iff {ps : List Char} :
    (ofPattern ps).Spans alike before piece after ↔ Covers alike ps piece ∧ after = [] := by
  induction ps generalizing before piece with
  | nil =>
    rw [ofPattern, spans_seq_iff, covers_nil_iff]
    constructor
    · rintro ⟨_, _, rfl, hfinish, ⟨⟩⟩
      generalize hrest : [] ++ after = rest at hfinish
      cases hfinish
      exact ⟨rfl, hrest⟩
    · rintro ⟨rfl, rfl⟩
      exact ⟨[], [], rfl, .finish, .empty⟩
  | cons p ps ih =>
    simp only [ofPattern, spans_seq_iff, spans_partOf_iff, ih, covers_cons_iff]
    constructor
    · rintro ⟨first, second, hpiece, hfirst, hsecond, hafter⟩
      exact ⟨⟨first, second, hpiece, hfirst, hsecond⟩, hafter⟩
    · rintro ⟨⟨first, second, hpiece, hfirst, hsecond⟩, hafter⟩
      exact ⟨first, second, hpiece, hfirst, hsecond, hafter⟩

/-- Between its anchors, the expression of a pattern finds the texts that the pattern covers. -/
theorem finds_ofPattern_iff {ps text : List Char} :
    (seq .start (ofPattern ps)).Finds alike text ↔ Covers alike ps text := by
  simp only [Finds, spans_seq_iff, spans_ofPattern_iff]
  constructor
  · rintro ⟨_, _, _, rfl, _, _, rfl, ⟨⟩, hcovers, rfl⟩
    simpa using hcovers
  · intro h
    exact ⟨[], text, [], by simp, [], text, rfl, .start, h, rfl⟩

end Regex

namespace Operator
open Pattern

theorem holds_like_str (text pattern : String) :
    like.holds (.str text) (.str pattern) = true ↔
      Covers (· == ·) pattern.toList text.toList :=
  covers_iff

theorem holds_ilike_str (text pattern : String) :
    ilike.holds (.str text) (.str pattern) = true ↔
      Covers Text.sameLetter pattern.toList text.toList :=
  covers_iff

/-- Only texts match, and only patterns that are texts. -/
theorem exists_str_of_like_or_ilike {l r : Json}
    (h : like.holds l r = true ∨ ilike.holds l r = true) :
    ∃ text pattern : String, l = .str text ∧ r = .str pattern := by
  have hlike : like.holds l r = if l.isNull || r.isNull then false else matchesPattern false l r :=
    rfl
  have hilike : ilike.holds l r = if l.isNull || r.isNull then false else matchesPattern true l r :=
    rfl
  rw [hlike, hilike] at h
  cases l <;> cases r <;> simp_all [matchesPattern]

/-- A text matches a pattern exactly if it can be cut into one piece for each character of the
pattern.  Where case is ignored, characters are compared up to case, so more texts match.  Without
wildcards a pattern matches itself only.  The expression written for a pattern is one that can be
read, and it finds the texts that match. -/
theorem like_iff_cut (l r : Json) (text pattern : String) :
    (like.holds l r = true ↔ ∃ t p : String, l = .str t ∧ r = .str p ∧
      ∃ pieces, List.Forall₂ (PieceOf (· == ·)) p.toList pieces ∧ pieces.flatten = t.toList) ∧
    (ilike.holds l r = true ↔ ∃ t p : String, l = .str t ∧ r = .str p ∧
      ∃ pieces, List.Forall₂ (PieceOf Text.sameLetter) p.toList pieces ∧
        pieces.flatten = t.toList) ∧
    (like.holds l r = true → ilike.holds l r = true) ∧
    ((∀ c ∈ pattern.toList, c ≠ '%' ∧ c ≠ '_') →
      (like.holds (.str text) (.str pattern) = true ↔ text = pattern)) ∧
    ∃ e, Regex.read? (toRegex pattern) = some e ∧
      (like.holds (.str text) (.str pattern) = true ↔ e.Finds (· == ·) text.toList) ∧
      (ilike.holds (.str text) (.str pattern) = true ↔ e.Finds Text.sameLetter text.toList) := by
  simp only [← covers_iff_pieces]
  refine ⟨⟨fun h => ?_, ?_⟩, ⟨fun h => ?_, ?_⟩, fun h => ?_, fun hp => ?_, _,
    Regex.read?_toRegex pattern, ?_, ?_⟩
  · obtain ⟨t, p, rfl, rfl⟩ := exists_str_of_like_or_ilike (.inl h)
    exact ⟨t, p, rfl, rfl, (holds_like_str t p).1 h⟩
  · rintro ⟨t, p, rfl, rfl, h⟩
    exact (holds_like_str t p).2 h
  · obtain ⟨t, p, rfl, rfl⟩ := exists_str_of_like_or_ilike (.inr h)
    exact ⟨t, p, rfl, rfl, (holds_ilike_str t p).1 h⟩
  · rintro ⟨t, p, rfl, rfl, h⟩
    exact (holds_ilike_str t p).2 h
  · obtain ⟨t, p, rfl, rfl⟩ := exists_str_of_like_or_ilike (.inl h)
    refine (holds_ilike_str t p).2 (((holds_like_str t p).1 h).mono fun a b hab => ?_)
    rw [eq_of_beq hab, Text.sameLetter_refl]
  · rw [holds_like_str, covers_iff_of_no_wildcard hp]
    simp only [beq_iff_eq]
    rw [List.forall₂_eq_eq_eq, String.toList_inj, eq_comm]
  · rw [holds_like_str, Regex.finds_ofPattern_iff]
  · rw [holds_ilike_str, Regex.finds_ofPattern_iff]

/-- A call of `f` matches whatever the case; a full stop stands for itself only. -/
theorem like_iff_cut_for_calls :
    like.holds (.str "f(x)") (.str "f(_)") = true ∧ ilike.holds (.str "f(x)") (.str "f(_)") = true ∧
    (∀ c ∈ "f.x".toList, c ≠ '%' ∧ c ≠ '_') ∧
    (like.holds (.str "fax") (.str "f.x") = true ↔ "fax" = "f.x") := by
  have hlike : like.holds (.str "f(x)") (.str "f(_)") = true := by decide +kernel
  have hplain : ∀ c ∈ "f.x".toList, c ≠ '%' ∧ c ≠ '_' := by simp
  obtain ⟨-, -, hcase, hsame, -⟩ := like_iff_cut (.str "f(x)") (.str "f(_)") "fax" "f.x"
  exact ⟨hlike, hcase hlike, hplain, hsame hplain⟩

end Operator
end RowGuard
