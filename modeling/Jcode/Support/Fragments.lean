import Jcode.Support.RecordLog

/-!
# Support — Fragments

A log that was written in *pieces*: records, whole or torn, each with the end of its line behind it
or not, so that any arrangement of whole and torn records may stand on one line.  A replay salvages
from a line its first run of whole records, and no other.

* `replay_pieces`: what is replayed is the first run of each line.
* `firstRun_eq_iff`: a line's first run is all its records exactly if no torn record stands between
  two whole ones.
-/

namespace RecordLog

open Rust

variable {E : Type*}

/-- Beginnings of records, one behind the other. -/
def Fragments (c : Codec E) (rest : List Char) : Prop :=
  ∃ parts : List (List Char), (∀ part ∈ parts, ∃ e, part <+: c.toStr e) ∧ rest = parts.flatten

/-- What is asked besides: a text that is one record is read as its first, and no part of a torn
record is one together with what is glued to it, unless it begins elsewhere than a record does. -/
structure Codec.Delimited (c : Codec E) (start : List Char) : Prop extends c.Lawful start where
  head_once : ∀ ch ∈ start.head?, ch ∉ start.tail
  stream_of_fromStr : ∀ text, c.fromStr text ≠ none → c.stream text ≠ []
  stream_cut : ∀ e torn part rest, torn <+: c.toStr e → torn ≠ c.toStr e → part <:+ torn →
    part ≠ [] → part = torn ∨ start <+: part ++ rest → Fragments c rest →
    c.stream (part ++ rest) = []

/-- A record, or a beginning of one, as it is written at once. -/
structure Piece (c : Codec E) where
  record : E
  text : List Char
  cut : text <+: c.toStr record
  ended : Bool

section
variable {c : Codec E}

/-- The record, if it is whole. -/
def Piece.complete (p : Piece c) : Option E :=
  if p.text = c.toStr p.record then some p.record else none

/-- The text of a line. -/
def pieceText (line : List (Piece c)) : List Char := line.flatMap (·.text)

/-- The text of a log. -/
def logText (pieces : List (Piece c)) : List Char :=
  pieces.flatMap fun p => p.text ++ if p.ended then ['\n'] else []

/-- The lines of a log, behind the pieces of the current line. -/
def pieceLinesFrom : List (Piece c) → List (Piece c) → List (List (Piece c))
  | current, [] => [current]
  | current, p :: pieces =>
      if p.ended then (current ++ [p]) :: pieceLinesFrom [] pieces
      else pieceLinesFrom (current ++ [p]) pieces

def pieceLines (pieces : List (Piece c)) : List (List (Piece c)) := pieceLinesFrom [] pieces

/-- The whole records. -/
def completes (pieces : List (Piece c)) : List E := pieces.filterMap Piece.complete

/-- The whole records up to the first torn one. -/
def leading : List (Piece c) → List E
  | [] => []
  | p :: line =>
      match p.complete with
      | some e => e :: leading line
      | none => if p.text = [] then leading line else []

/-- The whole records from the first one up to the next torn one. -/
def firstRun : List (Piece c) → List E
  | [] => []
  | p :: line =>
      match p.complete with
      | some e => e :: leading line
      | none => firstRun line

/-- No torn record stands between two whole ones. -/
def Together (line : List (Piece c)) : Prop :=
  ∀ p t q, [p, t, q].Sublist line → p.complete.isSome → q.complete.isSome →
    t.complete.isSome ∨ t.text = []

theorem pieceText_append (line line' : List (Piece c)) :
    pieceText (line ++ line') = pieceText line ++ pieceText line' := List.flatMap_append

theorem pieceText_cons (p : Piece c) (line : List (Piece c)) :
    pieceText (p :: line) = p.text ++ pieceText line := List.flatMap_cons

theorem fragments_pieceText (line : List (Piece c)) : Fragments c (pieceText line) :=
  ⟨line.map (·.text), List.forall_mem_map.mpr fun p _ => ⟨p.record, p.cut⟩, rfl⟩

theorem Piece.complete_eq_some {p : Piece c} {e : E} (h : p.complete = some e) :
    p.text = c.toStr e := by
  unfold Piece.complete at h
  split at h
  · cases h
    assumption
  · cases h

theorem Piece.complete_eq_none {p : Piece c} (h : p.complete = none) :
    p.text ≠ c.toStr p.record := by
  unfold Piece.complete at h
  split at h
  · cases h
  · assumption

/-! ### The first run of a line -/

theorem leading_prefix (line : List (Piece c)) : leading line <+: completes line := by
  induction line with
  | nil => exact List.nil_prefix
  | cons p line ih =>
      rw [leading, completes, List.filterMap_cons]
      cases p.complete with
      | some e => exact List.cons_prefix_cons.mpr ⟨rfl, ih⟩
      | none =>
          dsimp only
          split
          · exact ih
          · exact List.nil_prefix

theorem firstRun_prefix (line : List (Piece c)) : firstRun line <+: completes line := by
  induction line with
  | nil => exact List.nil_prefix
  | cons p line ih =>
      rw [firstRun, completes, List.filterMap_cons]
      cases p.complete with
      | some e => exact List.cons_prefix_cons.mpr ⟨rfl, leading_prefix line⟩
      | none => exact ih

theorem completes_eq_nil {line : List (Piece c)} :
    completes line = [] ↔ ∀ p ∈ line, p.complete = none := List.filterMap_eq_nil_iff

theorem leading_eq_iff (line : List (Piece c)) :
    leading line = completes line ↔
      ∀ t q, [t, q].Sublist line → q.complete.isSome → t.complete.isSome ∨ t.text = [] := by
  induction line with
  | nil => simp [leading, completes]
  | cons p line ih =>
      have hpairs : (∀ t q, [t, q].Sublist (p :: line) → q.complete.isSome →
          t.complete.isSome ∨ t.text = []) ↔
          (∀ q ∈ line, q.complete.isSome → p.complete.isSome ∨ p.text = []) ∧
            ∀ t q, [t, q].Sublist line → q.complete.isSome → t.complete.isSome ∨ t.text = [] := by
        constructor
        · intro h
          exact ⟨fun q hq => h p q ((List.singleton_sublist.mpr hq).cons_cons p),
            fun t q htq => h t q (htq.cons p)⟩
        · rintro ⟨hp, hline⟩ t q htq hq
          cases htq with
          | cons _ htq => exact hline t q htq hq
          | cons_cons _ htq => exact hp q (List.singleton_sublist.mp htq) hq
      rw [hpairs, leading, completes, List.filterMap_cons]
      cases hp : p.complete with
      | some e => simpa [completes] using ih
      | none =>
          by_cases hnil : p.text = []
          · simpa [hnil, completes] using ih
          · rw [if_neg hnil]
            constructor
            · intro h
              have hnone := completes_eq_nil.mp h.symm
              refine ⟨fun q hq hsome => ?_, fun t q htq hsome => ?_⟩
              · rw [hnone q hq] at hsome
                cases hsome
              · rw [hnone q (htq.subset (by simp))] at hsome
                cases hsome
            · rintro ⟨h, -⟩
              refine (completes_eq_nil.mpr fun q hq => ?_).symm
              by_contra hsome
              obtain h | h := h q hq (Option.isSome_iff_ne_none.mpr hsome)
              · cases h
              · exact hnil h

/-- **A line is salvaged whole** exactly if its whole records stand together. -/
theorem firstRun_eq_iff (line : List (Piece c)) :
    firstRun line = completes line ↔ Together line := by
  induction line with
  | nil => simp [firstRun, completes, Together]
  | cons p line ih =>
      rw [firstRun, completes, List.filterMap_cons]
      cases hp : p.complete with
      | some e =>
          dsimp only
          rw [List.cons_inj_right]
          refine (leading_eq_iff line).trans ?_
          constructor
          · intro h p' t q hsub _ hq
            cases hsub with
            | cons _ hsub => exact h t q ((List.sublist_cons_self _ _).trans hsub) hq
            | cons_cons _ hsub => exact h t q hsub hq
          · intro h t q hsub
            exact h p t q (hsub.cons_cons p) (by rw [hp]; rfl)
      | none =>
          refine ih.trans ?_
          constructor
          · intro h p' t q hsub hp' hq
            cases hsub with
            | cons _ hsub => exact h p' t q hsub hp' hq
            | cons_cons _ hsub =>
                rw [hp] at hp'
                cases hp'
          · intro h p' t q hsub
            exact h p' t q (hsub.cons p)

/-- Each line gives a beginning of what it holds: together they give all only if each does. -/
theorem flatMap_eq_iff {α β : Type*} {f g : α → List β} {l : List α} (h : ∀ a ∈ l, f a <+: g a) :
    l.flatMap f = l.flatMap g ↔ ∀ a ∈ l, f a = g a := by
  induction l with
  | nil => simp
  | cons a l ih =>
      obtain ⟨ha, hl⟩ := List.forall_mem_cons.mp h
      have hle : (l.flatMap f).length ≤ (l.flatMap g).length := by
        rw [List.length_flatMap, List.length_flatMap]
        exact List.sum_le_sum fun a ha => (hl a ha).length_le
      rw [List.flatMap_cons, List.flatMap_cons, List.forall_mem_cons, ← ih hl]
      constructor
      · intro heq
        have hlen := congrArg List.length heq
        rw [List.length_append, List.length_append] at hlen
        have hfg := ha.eq_of_length (le_antisymm ha.length_le (by omega))
        rw [hfg] at heq
        exact ⟨hfg, List.append_cancel_left heq⟩
      · rintro ⟨hfg, hrest⟩
        rw [hfg, hrest]

theorem completes_pieceLinesFrom (current pieces : List (Piece c)) :
    (pieceLinesFrom current pieces).flatMap completes = completes (current ++ pieces) := by
  induction pieces generalizing current with
  | nil => rw [pieceLinesFrom, List.flatMap_singleton, List.append_nil]
  | cons p pieces ih =>
      rw [pieceLinesFrom]
      split
      · rw [List.flatMap_cons, ih, List.nil_append, completes, completes, completes,
          ← List.filterMap_append, List.append_assoc, List.singleton_append]
      · rw [ih, List.append_assoc, List.singleton_append]

end

section
variable {c : Codec E} {start : List Char} (h : c.Delimited start)
include h

/-! ### Reading fragments -/

omit h in
/-- The first of the beginnings that is not empty. -/
theorem Fragments.split {rest : List Char} (hrest : Fragments c rest) (hne : rest ≠ []) :
    ∃ e part more, part ≠ [] ∧ part <+: c.toStr e ∧ Fragments c more ∧ rest = part ++ more := by
  obtain ⟨parts, hparts, rfl⟩ := hrest
  induction parts with
  | nil => exact absurd rfl hne
  | cons part parts ih =>
      obtain ⟨⟨e, he⟩, hmore⟩ := List.forall_mem_cons.mp hparts
      by_cases hpart : part = []
      · subst hpart
        exact ih hmore hne
      · exact ⟨e, part, parts.flatten, hpart, he, ⟨parts, hmore, rfl⟩, rfl⟩

omit h in
/-- What is glued begins like a record. -/
theorem Codec.Lawful.head_fragments (h : c.Lawful start) {rest : List Char} (hrest : Fragments c rest)
    (hne : rest ≠ []) : rest.head? = start.head? := by
  obtain ⟨e, part, more, hpart, ⟨after, hafter⟩, -, rfl⟩ := hrest.split hne
  obtain ⟨more', hstart⟩ := h.start_prefix e
  have hboth := congrArg List.head? (hafter.trans hstart.symm)
  rw [List.head?_append_of_ne_nil _ hpart, List.head?_append_of_ne_nil _ h.start_ne_nil] at hboth
  rw [List.head?_append_of_ne_nil _ hpart, hboth]

/-- A record does not begin across the end of a torn one. -/
theorem Codec.Delimited.length_le {part rest : List Char} (hpart : part ≠ [])
    (hrest : Fragments c rest) (hstart : start <+: part ++ rest) : start.length ≤ part.length := by
  by_contra hlt
  obtain ⟨after, hafter⟩ := List.prefix_of_prefix_length_le (List.prefix_append part rest) hstart
    (by omega)
  subst hafter
  have hne : after ≠ [] := by
    rintro rfl
    rw [List.append_nil] at hlt
    exact hlt le_rfl
  have hafter : after <+: rest := (List.prefix_append_right_inj part).mp hstart
  have hrestne : rest ≠ [] := fun hnil => hne (List.prefix_nil.mp (hnil ▸ hafter))
  obtain ⟨ch, hch⟩ : ∃ ch, after.head? = some ch := ⟨after.head hne, List.head?_eq_some_head hne⟩
  have hhead : (part ++ after).head? = some ch := by
    rw [← h.head_fragments hrest hrestne, ← hch]
    obtain ⟨more, rfl⟩ := hafter
    exact List.head?_append_of_ne_nil _ hne
  refine h.head_once ch hhead ?_
  cases part with
  | nil => exact absurd rfl hpart
  | cons ch' part => exact List.mem_append_right _ (List.mem_of_mem_head? hch)

omit h in
/-- The characters behind a beginning that failed are passed over. -/
theorem salvageFrom_skip (skip : ℕ) (text rest : List Char) (hskip : skip ≤ text.length) :
    salvageFrom c start skip (text ++ rest) = salvageFrom c start 0 (text.drop skip ++ rest) := by
  induction skip generalizing text with
  | zero => rfl
  | succ skip ih =>
      cases text with
      | nil => exact absurd hskip (by simp)
      | cons ch text => exact ih text (Nat.le_of_succ_le_succ hskip)

/-- **A torn record is passed over.** -/
theorem Codec.Delimited.salvageFrom_torn {e : E} {torn rest : List Char}
    (htorn : torn <+: c.toStr e) (hne : torn ≠ c.toStr e) (hrest : Fragments c rest)
    (part : List Char) (hpart : part <:+ torn) :
    salvageFrom c start 0 (part ++ rest) = salvageFrom c start 0 rest := by
  -- by what is left of the torn record
  induction hn : part.length using Nat.strong_induction_on generalizing part with
  | _ n ih =>
      subst hn
      cases part with
      | nil => rfl
      | cons ch part =>
          have hsuffix : part <:+ torn := (List.suffix_cons ch part).trans hpart
          rw [List.cons_append, salvageFrom]
          split
          · next hstart =>
              have hstart : start <+: (ch :: part) ++ rest := List.isPrefixOf_iff_prefix.mp hstart
              have hstream := h.stream_cut e torn (ch :: part) rest htorn hne hpart
                (List.cons_ne_nil _ _) (.inr hstart) hrest
              have hlen : start.length ≤ part.length + 1 :=
                h.length_le (List.cons_ne_nil ch part) hrest hstart
              rw [List.cons_append] at hstream
              rw [hstream]
              dsimp only
              rw [salvageFrom_skip _ _ _ (by omega)]
              refine ih _ ?_ _ ((List.drop_suffix _ _).trans hsuffix) rfl
              rw [List.length_drop, List.length_cons]
              omega
          · exact ih part.length (by simp) part hsuffix rfl

/-- The records that are read from the beginning of a line. -/
theorem Codec.Delimited.stream_pieceText (e : E) (line : List (Piece c)) :
    c.stream (pieceText line) = leading line := by
  induction line with
  | nil => exact h.stream_torn e [] List.nil_prefix (Ne.symm (h.toStr_ne_nil e))
  | cons p line ih =>
      rw [pieceText_cons, leading]
      cases hp : p.complete with
      | some e' => rw [Piece.complete_eq_some hp, h.stream_toStr, ih]
      | none =>
          dsimp only
          split
          · next hnil => rw [hnil, List.nil_append, ih]
          · next hnil =>
              exact h.stream_cut p.record p.text p.text _ p.cut (Piece.complete_eq_none hp)
                (List.suffix_refl _) hnil (.inl rfl) (fragments_pieceText line)

/-- The records that are salvaged from a line. -/
theorem Codec.Delimited.salvage_pieceText (line : List (Piece c)) :
    salvage c start (pieceText line) = firstRun line := by
  induction line with
  | nil => rfl
  | cons p line ih =>
      rw [pieceText_cons, firstRun]
      cases hp : p.complete with
      | some e =>
          rw [Piece.complete_eq_some hp, h.salvage_toStr, h.stream_toStr, h.stream_pieceText e]
      | none =>
          rw [← ih]
          exact h.salvageFrom_torn p.cut (Piece.complete_eq_none hp) (fragments_pieceText line) _
            (List.suffix_refl _)

/-! ### White space at the end of a line -/

/-- A piece without the white space at its end. -/
def Piece.trimmed (p : Piece c) : Piece c :=
  { p with
    text := p.text.rdropWhile isWhitespace
    cut := (List.rdropWhile_prefix _ _).trans p.cut }

theorem Codec.Delimited.trimmed_eq_nil {p : Piece c} (hp : p.trimmed.text = []) : p.text = [] := by
  by_contra hne
  obtain ⟨ch, hch, hws⟩ := h.exists_notWhitespace hne p.cut
  have := List.rdropWhile_eq_nil_iff.mp hp ch hch
  rw [hws] at this
  cases this

theorem Codec.Delimited.complete_trimmed (p : Piece c) : p.trimmed.complete = p.complete := by
  have hiff : p.trimmed.text = c.toStr p.record ↔ p.text = c.toStr p.record := by
    constructor
    · intro heq
      refine p.cut.eq_of_length_le ?_
      rw [← heq]
      exact (List.rdropWhile_prefix _ _).length_le
    · intro heq
      show p.text.rdropWhile isWhitespace = c.toStr p.record
      rw [heq, h.last_notWhitespace]
  exact if_congr hiff rfl rfl

theorem Codec.Delimited.leading_trimmed (line : List (Piece c)) (p : Piece c) :
    leading (line ++ [p.trimmed]) = leading (line ++ [p]) := by
  induction line with
  | nil => simp [leading, h.complete_trimmed]
  | cons p' line ih => rw [List.cons_append, List.cons_append, leading, leading, ih]

theorem Codec.Delimited.firstRun_trimmed (line : List (Piece c)) (p : Piece c) :
    firstRun (line ++ [p.trimmed]) = firstRun (line ++ [p]) := by
  induction line with
  | nil => simp [firstRun, leading, h.complete_trimmed]
  | cons p' line ih =>
      rw [List.cons_append, List.cons_append, firstRun, firstRun, ih, h.leading_trimmed]

/-- An empty piece holds nothing. -/
theorem Codec.Delimited.complete_of_nil {p : Piece c} (hp : p.text = []) : p.complete = none := by
  cases hc : p.complete with
  | none => rfl
  | some e => exact absurd ((Piece.complete_eq_some hc).symm.trans hp) (h.toStr_ne_nil e)

theorem Codec.Delimited.completes_of_nil {line : List (Piece c)} (hline : pieceText line = []) :
    completes line = [] :=
  completes_eq_nil.mpr fun p hp => h.complete_of_nil (List.flatMap_eq_nil_iff.mp hline p hp)

theorem Codec.Delimited.firstRun_of_nil {line : List (Piece c)} (hline : pieceText line = []) :
    firstRun line = [] :=
  List.prefix_nil.mp (h.completes_of_nil hline ▸ firstRun_prefix line)

theorem Codec.Delimited.firstRun_append_nil (line : List (Piece c)) {p : Piece c}
    (hp : p.text = []) : firstRun (line ++ [p]) = firstRun line := by
  have hnone := h.complete_of_nil hp
  have hleading : ∀ line : List (Piece c), leading (line ++ [p]) = leading line := by
    intro line
    induction line with
    | nil => simp [leading, hnone]
    | cons p' line ih => rw [List.cons_append, leading, leading, ih]
  induction line with
  | nil => simp [firstRun, hnone]
  | cons p' line ih => rw [List.cons_append, firstRun, firstRun, ih, hleading]

/-- Trimming a line trims its last piece. -/
theorem Codec.Delimited.trim_pieceText (line : List (Piece c)) :
    ∃ line' : List (Piece c), trim (pieceText line) = pieceText line' ∧ firstRun line' = firstRun line := by
  have hdrop : ∀ rest, Fragments c rest → rest.dropWhile isWhitespace = rest := by
    intro rest hrest
    cases rest with
    | nil => rfl
    | cons ch rest =>
        have hhead := h.head_fragments hrest (List.cons_ne_nil _ _)
        have hws := h.start_notWhitespace ch (hhead ▸ rfl)
        exact List.dropWhile_cons_of_neg (by simp [hws])
  rw [trim, hdrop _ (fragments_pieceText line)]
  induction line using List.reverseRecOn with
  | nil => exact ⟨[], rfl, rfl⟩
  | append_singleton line p ih =>
      by_cases hp : p.text = []
      · obtain ⟨line', htext, hrun⟩ := ih
        refine ⟨line', ?_, hrun.trans (h.firstRun_append_nil line hp).symm⟩
        rw [pieceText_append, show pieceText [p] = p.text from List.flatMap_singleton .., hp,
          List.append_nil, htext]
      · refine ⟨line ++ [p.trimmed], ?_, h.firstRun_trimmed line p⟩
        have hne : p.text.rdropWhile isWhitespace ≠ [] := fun hnil => hp (h.trimmed_eq_nil hnil)
        rw [pieceText_append, pieceText_append, show pieceText [p] = p.text from
          List.flatMap_singleton .., rdropWhile_append _ hne]
        exact congrArg _ (List.flatMap_singleton ..).symm

/-! ### Lines -/

/-- A line that reads as one record holds it. -/
theorem Codec.Delimited.firstRun_of_fromStr {line : List (Piece c)} {e : E}
    (hread : c.fromStr (pieceText line) = some e) : firstRun line = [e] := by
  have hstream : c.stream (pieceText line) ≠ [] := h.stream_of_fromStr _ (by rw [hread]; nofun)
  rw [h.stream_pieceText e] at hstream
  induction line with
  | nil => exact absurd rfl hstream
  | cons p line ih =>
      rw [pieceText_cons] at hread
      rw [leading] at hstream
      rw [firstRun]
      cases hp : p.complete with
      | some e' =>
          rw [Piece.complete_eq_some hp] at hread
          by_cases hnil : pieceText line = []
          · rw [hnil, List.append_nil, h.fromStr_toStr] at hread
            cases hread
            exact congrArg _ (List.prefix_nil.mp (h.completes_of_nil hnil ▸ leading_prefix line))
          · -- something more stands on the line
            have hhead := h.head_fragments (fragments_pieceText line) hnil
            obtain ⟨ch, hch⟩ : ∃ ch, (pieceText line).head? = some ch :=
              ⟨_, List.head?_eq_some_head hnil⟩
            have hnone := h.fromStr_glued e' (pieceText line)
              ⟨ch, List.mem_of_mem_head? hch, h.start_notWhitespace ch (hhead ▸ hch)⟩
            rw [hnone] at hread
            cases hread
      | none =>
          rw [hp] at hstream
          dsimp only at hstream ⊢
          split at hstream
          · next hnil =>
              rw [hnil, List.nil_append] at hread
              exact ih hread hstream
          · exact absurd rfl hstream

/-- **A line** is read as its first run. -/
theorem Codec.Delimited.replayLine_pieceText (line : List (Piece c)) :
    (replayLine c start (pieceText line)).records = firstRun line := by
  obtain ⟨line', htrim, hrun⟩ := h.trim_pieceText line
  rw [← hrun, replayLine, htrim]
  by_cases hnil : pieceText line' = []
  · rw [if_pos hnil, h.firstRun_of_nil hnil]
  · rw [if_neg hnil]
    cases hread : c.fromStr (pieceText line') with
    | some e => exact (h.firstRun_of_fromStr hread).symm
    | none => exact h.salvage_pieceText line'

theorem Codec.Delimited.newline_notMem_pieceText (line : List (Piece c)) :
    '\n' ∉ pieceText line := by
  intro hmem
  obtain ⟨p, -, hp⟩ := List.mem_flatMap.mp hmem
  exact h.newline_notMem p.record (p.cut.subset hp)

theorem Codec.Delimited.replay_pieceLinesFrom (current pieces : List (Piece c)) :
    (replay c start (utf8 (pieceText current ++ logText pieces))).map (·.records) =
      some ((pieceLinesFrom current pieces).flatMap firstRun) := by
  induction pieces generalizing current with
  | nil =>
      have hnewline := newline_notMem_utf8 (h.newline_notMem_pieceText current)
      rw [show logText ([] : List (Piece c)) = [] from rfl, List.append_nil, pieceLinesFrom,
        List.flatMap_singleton, replay, lines_last hnewline]
      split
      · next hnil =>
          have hempty := fromUtf8_utf8 (pieceText current)
          rw [hnil] at hempty
          rw [h.firstRun_of_nil (Option.some.inj hempty).symm]
          rfl
      · rw [replayLines, fromUtf8_utf8]
        simp only [replayLines, Option.map_some, List.append_nil, h.replayLine_pieceText]
  | cons p pieces ih =>
      have hsingle : pieceText [p] = p.text := List.flatMap_singleton ..
      rw [pieceLinesFrom, logText, List.flatMap_cons, ← logText]
      by_cases hended : p.ended
      · have hline : pieceText current ++ (p.text ++ ['\n'] ++ logText pieces) =
            pieceText (current ++ [p]) ++ '\n' :: logText pieces := by
          rw [pieceText_append, hsingle]
          simp [pieceText]
        have hrest := ih []
        rw [pieceText, List.flatMap_nil, List.nil_append] at hrest
        have hnewline := newline_notMem_utf8 (h.newline_notMem_pieceText (current ++ [p]))
        rw [replay] at hrest
        rw [if_pos hended, if_pos hended, hline, utf8_append,
          show utf8 ('\n' :: logText pieces) = 10 :: utf8 (logText pieces) from rfl, replay,
          lines_newline hnewline, replayLines, fromUtf8_utf8]
        obtain ⟨after, hafter, hrecords⟩ := Option.map_eq_some_iff.mp hrest
        simp only [hafter, Option.map_some, List.flatMap_cons, h.replayLine_pieceText, hrecords]
      · have hline : pieceText current ++ (p.text ++ [] ++ logText pieces) =
            pieceText (current ++ [p]) ++ logText pieces := by
          rw [pieceText_append, hsingle, List.append_nil, List.append_assoc]
        rw [if_neg hended, if_neg hended, hline, ih]

/-- **A log** replays to the first run of each line. -/
theorem Codec.Delimited.replay_pieces (pieces : List (Piece c)) :
    (replay c start (utf8 (logText pieces))).map (·.records) =
      some ((pieceLines pieces).flatMap firstRun) := h.replay_pieceLinesFrom [] pieces

/-- **A log is replayed whole** exactly if on each line the whole records stand together. -/
theorem Codec.Delimited.replay_iff (pieces : List (Piece c)) :
    (replay c start (utf8 (logText pieces))).map (·.records) = some (completes pieces) ↔
      ∀ line ∈ pieceLines pieces, Together line := by
  have hall : (pieceLines pieces).flatMap completes = completes pieces :=
    completes_pieceLinesFrom [] pieces
  rw [h.replay_pieces, Option.some_inj, ← hall, flatMap_eq_iff fun line _ => firstRun_prefix line]
  exact forall₂_congr fun line _ => firstRun_eq_iff line

end

/-- A writer none of whose records begins in a torn one. -/
theorem Codec.delimited_ofWrite {write : E → List Char} {start : List Char}
    (h : (Codec.ofWrite write).Lawful start) (hpre : ∀ e e', write e <+: write e' → e = e')
    (hhead : ∀ ch ∈ start.head?, ch ∉ start.tail)
    (hcut : ∀ e torn part rest e', torn <+: write e → torn ≠ write e → part <:+ torn → part ≠ [] →
      Fragments (Codec.ofWrite write) rest → ¬ write e' <+: part ++ rest) :
    (Codec.ofWrite write).Delimited start where
  toLawful := h
  head_once := hhead
  stream_of_fromStr text hread := by
    obtain ⟨e, he⟩ := Option.ne_none_iff_exists'.mp hread
    have hstream := h.stream_toStr e []
    rw [List.append_nil, show (Codec.ofWrite write).toStr e = text from
      (fromStr_ofWrite hpre).mp he] at hstream
    rw [hstream]
    exact List.cons_ne_nil _ _
  stream_cut e torn part rest htorn hne hpart hpartne _ hrest := by
    refine streamOf_eq_nil _ ?_
    rintro ⟨⟨e', after⟩, hread⟩
    exact hcut e torn part rest e' htorn hne hpart hpartne hrest (hread ▸ List.prefix_append _ _)

end RecordLog
