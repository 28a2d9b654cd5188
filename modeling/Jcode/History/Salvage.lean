import Jcode.History.Crash
import Jcode.Support.Fragments

/-!
# History — salvage

The replay of a session's journal that holds whole and torn entries in any arrangement.  The line
of an entry that a crash tore is continued by the next append; the replay of such a line applies
the entries from the first whole one up to the next torn one, and skips the rest of the line.

* `replay_journal_lines_iff`: what is applied is exactly the whole entries if and only if on each
  line they stand together.
* `entry_behind_torn_lost`: of two entries that a torn one parts, the second is lost.
-/

namespace Jcode.History

open RecordLog Rust

section
variable (codec : Codec SessionJournalEntry)

/-- `replay_journal_lines` of a journal's bytes, as the entries that are applied; `salvage` is
`salvage_glued_journal_entries`. -/
def replayJournalLines (journal : List UInt8) : Option (List SessionJournalEntry) :=
  (replay codec ENTRY_START journal).map (·.records)

end

/-- **The journal is salvaged** exactly if no line has a torn entry between two whole ones. -/
theorem replay_journal_lines_iff {codec : Codec SessionJournalEntry}
    (h : codec.Delimited ENTRY_START) (pieces : List (Piece codec)) :
    replayJournalLines codec (utf8 (logText pieces)) = some (completes pieces) ↔
      ∀ line ∈ pieceLines pieces, Together line := h.replay_iff pieces

/-! ### A writer that is delimited -/

/-- An object opens in a way in which only an entry, or the torn beginning of one, does. -/
def opens : List Char → Bool
  | '\x7b' :: '\x7b' :: _ => true
  | '\x7b' :: '"' :: '\x7b' :: _ => true
  | '\x7b' :: '"' :: 'm' :: _ => true
  | _ => false

/-- Whether an entry, or the torn beginning of one, opens somewhere. -/
def opensIn : List Char → Bool
  | [] => false
  | ch :: text => opens (ch :: text) || opensIn text

theorem opensIn_of_suffix {part text : List Char} (hpart : part <:+ text) (h : opens part) :
    opensIn text := by
  induction text with
  | nil =>
      rw [List.suffix_nil.mp hpart] at h
      cases h
  | cons ch text ih =>
      rw [opensIn, Bool.or_eq_true]
      obtain rfl | hpart := List.suffix_cons_iff.mp hpart
      · exact .inl h
      · exact .inr (ih hpart)

theorem opensIn_of_notMem {text : List Char} (h : '\x7b' ∉ text) : opensIn text = false := by
  induction text with
  | nil => rfl
  | cons ch text ih =>
      obtain ⟨hch, htext⟩ := List.ne_and_not_mem_of_not_mem_cons h
      have hopens : opens (ch :: text) = false := by
        unfold opens
        split <;> simp_all
      rw [opensIn, hopens, ih htext]
      rfl

/-- Three characters tell what opens. -/
theorem opens_three (a b : Char) (text text' : List Char) :
    opens ('\x7b' :: a :: b :: text) = opens ('\x7b' :: a :: b :: text') := by
  unfold opens
  split <;> split <;> simp_all

/-- Nothing opens in the piece, whatever follows it. -/
def shut : List Char → Bool
  | [] => true
  | ch :: text => (ch != '\x7b' || decide (2 ≤ text.length) && !opens (ch :: text)) && shut text

theorem opensIn_append_of_shut {piece : List Char} (h : shut piece = true) (text : List Char) :
    opensIn (piece ++ text) = opensIn text := by
  induction piece with
  | nil => rfl
  | cons ch piece ih =>
      rw [shut, Bool.and_eq_true] at h
      have hopens : opens (ch :: (piece ++ text)) = false := by
        by_cases hch : ch = '\x7b'
        · subst hch
          match piece, h.1 with
          | a :: b :: piece, h =>
              rw [List.cons_append, List.cons_append, opens_three a b _ piece]
              simpa using h
        · unfold opens
          split <;> simp_all
      rw [List.cons_append, opensIn, hopens, Bool.false_or, ih h.2]

theorem opensIn_of_pieces {pieces : List String} (h : ∀ s ∈ pieces, shut s.toList = true)
    (text : List Char) : opensIn (pieces.flatMap String.toList ++ text) = opensIn text := by
  induction pieces with
  | nil => rfl
  | cons s pieces ih =>
      obtain ⟨hs, hpieces⟩ := List.forall_mem_cons.mp h
      rw [List.flatMap_cons, List.append_assoc, opensIn_append_of_shut hs, ih hpieces]

theorem opensIn_foxJson : opensIn (ENTRY_START.tail ++ foxJson ++ ['\x7d']) = false := by
  have hstart : shut ENTRY_START.tail = true := by decide
  rw [show foxJson = _ from toList_append_pieces .., List.append_assoc,
    opensIn_append_of_shut hstart, opensIn_of_pieces]
  · rfl
  · -- piece by piece, as above
    iterate 9 refine List.forall_mem_cons.mpr ⟨by decide +kernel, ?_⟩
    exact List.forall_mem_nil _

/-- Inside an entry nothing opens like one. -/
theorem opensIn_writeEntry (e : SessionJournalEntry) : opensIn (writeEntry e).tail = false := by
  have htail : (writeEntry e).tail = ENTRY_START.tail ++
      (if e = foxEntry then foxJson else List.replicate (entryNumber e) '0') ++ ['\x7d'] := by
    have hne : ENTRY_START ≠ [] := by decide
    rw [writeEntry, List.append_assoc, List.tail_append_of_ne_nil hne, ← List.append_assoc]
  rw [htail]
  split
  · exact opensIn_foxJson
  · refine opensIn_of_notMem ?_
    simp only [List.mem_append, not_or]
    exact ⟨⟨by decide, fun hmem => absurd (List.eq_of_mem_replicate hmem) (by decide)⟩,
      by decide⟩

theorem writeEntry_eq (e : SessionJournalEntry) :
    ∃ text, writeEntry e = '\x7b' :: '"' :: 'm' :: (text ++ ['\x7d']) := by
  have hstart : ENTRY_START = '\x7b' :: '"' :: 'm' :: "eta\":".toList := by decide
  rw [writeEntry, hstart]
  exact ⟨_, rfl⟩

theorem head_fragments {rest : List Char} (hrest : Fragments foxCodec rest) {ch : Char}
    {more : List Char} (hcons : rest = ch :: more) : ch = '\x7b' := by
  subst hcons
  have hhead := foxCodec_lawful.head_fragments hrest (List.cons_ne_nil _ _)
  rw [head?_start, List.head?_cons] at hhead
  exact Option.some.inj hhead

/-- Beginnings of entries, one behind the other, open like an entry when another follows. -/
theorem fragments_opens {rest : List Char} (hrest : Fragments foxCodec rest) (hne : rest ≠ []) :
    opens (rest ++ ['\x7b', '\x7b']) := by
  obtain ⟨e, part, more, hpart, hpre, hfrag, rfl⟩ := hrest.split hne
  obtain ⟨text, hwrite⟩ := writeEntry_eq e
  rw [show foxCodec.toStr e = writeEntry e from rfl, hwrite] at hpre
  obtain ⟨more', hmore⟩ : ∃ more', more ++ ['\x7b', '\x7b'] = '\x7b' :: more' := by
    cases more with
    | nil => exact ⟨_, rfl⟩
    | cons ch more =>
        rw [head_fragments hfrag rfl]
        exact ⟨_, rfl⟩
  rw [List.append_assoc, hmore]
  obtain _ | ⟨x, _ | ⟨y, _ | ⟨z, part⟩⟩⟩ := part
  · exact absurd rfl hpart
  · obtain rfl := (List.cons_prefix_cons.mp hpre).1
    rfl
  · simp only [List.cons_prefix_cons] at hpre
    obtain ⟨rfl, rfl, -⟩ := hpre
    rfl
  · simp only [List.cons_prefix_cons] at hpre
    obtain ⟨rfl, rfl, rfl, -⟩ := hpre
    rfl

/-- How a text opens is seen up to the end of an entry. -/
theorem opens_of_append {text more : List Char} (h : opens (text ++ '\x7d' :: more)) :
    opens (text ++ ['\x7d']) := by
  obtain _ | ⟨x, _ | ⟨y, _ | ⟨z, text⟩⟩⟩ := text
  · simp [opens] at h
  · unfold opens at h
    split at h <;> simp_all
  · unfold opens at h
    split at h <;> simp_all [opens]
  · unfold opens at h
    split at h <;> simp_all [opens]

/-- An entry does not begin in a torn one. -/
theorem writeEntry_cut {e e' : SessionJournalEntry} {torn part rest : List Char}
    (htorn : torn <+: writeEntry e) (hne : torn ≠ writeEntry e) (hpart : part <:+ torn)
    (hpartne : part ≠ []) (hrest : Fragments foxCodec rest) :
    ¬ writeEntry e' <+: part ++ rest := by
  intro hread
  obtain ⟨text, hwrite⟩ := writeEntry_eq e'
  obtain ⟨before, rfl⟩ := hpart
  cases before with
  | nil =>
      -- the rest of the entry would be read from what is glued
      rw [List.nil_append] at htorn hne
      have hlong : ¬ writeEntry e' <+: part := fun h => by
        obtain rfl := writeEntry_prefix e' e (h.trans htorn)
        exact hne (htorn.eq_of_length_le h.length_le)
      obtain ⟨mid, hmid⟩ : part <+: writeEntry e' :=
        (List.prefix_or_prefix_of_prefix (List.prefix_append part rest) hread).resolve_right hlong
      have hmidne : mid ≠ [] := by
        rintro rfl
        rw [List.append_nil] at hmid
        exact hlong (hmid ▸ List.prefix_refl _)
      rw [← hmid] at hread
      obtain ⟨after, hafter⟩ := (List.prefix_append_right_inj part).mp hread
      have hrestne : rest ≠ [] := fun hnil =>
        hmidne (List.append_eq_nil_iff.mp (hafter.trans hnil)).1
      obtain ⟨mid', rfl⟩ : ∃ mid', mid = mid' ++ ['\x7d'] := by
        have hlast : mid.getLast? = some '\x7d' := by
          rw [← List.getLast?_append_of_ne_nil part hmidne, hmid, hwrite]
          exact List.getLast?_concat (l := '\x7b' :: '"' :: 'm' :: text)
        exact ⟨mid.dropLast, (List.dropLast_append_getLast? _ hlast).symm⟩
      have hopens := fragments_opens hrest hrestne
      rw [← hafter, List.append_assoc, List.append_assoc, List.singleton_append] at hopens
      have hsuffix : mid' ++ ['\x7d'] <:+ (writeEntry e').tail := by
        rw [← hmid, List.tail_append_of_ne_nil hpartne]
        exact List.suffix_append _ _
      have hinside := opensIn_of_suffix hsuffix (opens_of_append hopens)
      rw [opensIn_writeEntry] at hinside
      cases hinside
  | cons ch before =>
      -- the entry would begin inside the torn one
      obtain ⟨after, hafter⟩ := htorn
      have hsuffix : part ++ after <:+ (writeEntry e).tail := by
        rw [← hafter, List.cons_append, List.cons_append, List.tail_cons, List.append_assoc]
        exact List.suffix_append _ _
      rw [hwrite] at hread
      have hopens : opens (part ++ after) := by
        obtain _ | ⟨x, _ | ⟨y, _ | ⟨z, part⟩⟩⟩ := part
        · exact absurd rfl hpartne
        · obtain ⟨more, hmore⟩ := (List.cons_prefix_cons.mp hread).2
          exact absurd (head_fragments hrest hmore.symm) (by decide)
        · simp only [List.cons_append, List.nil_append, List.cons_prefix_cons] at hread
          obtain ⟨-, -, more, hmore⟩ := hread
          exact absurd (head_fragments hrest hmore.symm) (by decide)
        · simp only [List.cons_append, List.cons_prefix_cons] at hread
          obtain ⟨rfl, rfl, rfl, -⟩ := hread
          rfl
      have hinside := opensIn_of_suffix hsuffix hopens
      rw [opensIn_writeEntry] at hinside
      cases hinside

theorem foxCodec_delimited : foxCodec.Delimited ENTRY_START := by
  refine Codec.delimited_ofWrite foxCodec_lawful writeEntry_prefix (fun ch hch => ?_)
    fun _ _ _ _ _ htorn hne hpart hpartne hrest => writeEntry_cut htorn hne hpart hpartne hrest
  rw [head?_start] at hch
  cases hch
  decide

/-! ### An entry behind a torn one -/

/-- The entry, with the end of its line or without. -/
noncomputable def foxWhole (ended : Bool) : Piece foxCodec :=
  ⟨foxEntry, foxCodec.toStr foxEntry, List.prefix_refl _, ended⟩

/-- The entry, torn where its value begins. -/
noncomputable def foxTorn : Piece foxCodec :=
  ⟨foxEntry, ENTRY_START, start_prefix_writeEntry foxEntry, false⟩

theorem complete_foxWhole (ended : Bool) : (foxWhole ended).complete = some foxEntry := if_pos rfl

theorem complete_foxTorn : foxTorn.complete = none := by
  have hlt : ENTRY_START.length < (foxCodec.toStr foxEntry).length := by
    rw [toStr_foxEntry, List.length_append, List.length_append, List.length_singleton]
    omega
  have htext : foxTorn.text = ENTRY_START := rfl
  refine if_neg fun heq => hlt.ne ?_
  rw [← htext]
  exact congrArg List.length heq

/-- The journal of two entries on the first line, and of one behind a torn one on the second. -/
theorem replay_journal_lines_iff_fox :
    replayJournalLines foxCodec
        (utf8 (logText [foxWhole false, foxWhole true, foxTorn, foxWhole true])) =
      some (completes [foxWhole false, foxWhole true, foxTorn, foxWhole true]) := by
  refine (replay_journal_lines_iff foxCodec_delimited _).mpr fun line hline p t q hsub => ?_
  have hlines : pieceLines [foxWhole false, foxWhole true, foxTorn, foxWhole true] =
      [[foxWhole false, foxWhole true], [foxTorn, foxWhole true], []] := rfl
  have hlong := hsub.length_le
  rw [hlines] at hline
  simp only [List.mem_cons, List.not_mem_nil, or_false] at hline
  obtain rfl | rfl | rfl := hline <;> simp at hlong

/-- **An entry behind a torn one is lost**: the line begins with a whole entry, and the salvage
stops at the torn one. -/
theorem entry_behind_torn_lost :
    replayJournalLines foxCodec (utf8 (logText [foxWhole false, foxTorn, foxWhole true])) =
        some [foxEntry] ∧
      completes [foxWhole false, foxTorn, foxWhole true] = [foxEntry, foxEntry] := by
  have htorn : foxTorn.text ≠ [] := by
    show ENTRY_START ≠ []
    decide +kernel
  constructor
  · have hlines : pieceLines [foxWhole false, foxTorn, foxWhole true] =
        [[foxWhole false, foxTorn, foxWhole true], []] := rfl
    have hrun : firstRun [foxWhole false, foxTorn, foxWhole true] = [foxEntry] := by
      rw [firstRun, complete_foxWhole]
      dsimp only
      rw [leading, complete_foxTorn]
      dsimp only
      rw [if_neg htorn]
    rw [replayJournalLines, foxCodec_delimited.replay_pieces, hlines, List.flatMap_cons, hrun]
    rfl
  · simp [completes, complete_foxWhole, complete_foxTorn]

end Jcode.History
