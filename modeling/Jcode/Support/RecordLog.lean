import Jcode.Support.Std

/-!
# Support — RecordLog

A log of records, one line of text each, that is only ever appended to.  An append that is cut
short leaves a *torn* line, without its end; a later append then writes on the same line, so that
a line may hold several records, *glued*, and the last line a torn one behind them.  A replay reads
the lines back, and of a line that is not one record it salvages the records that it begins with.

How records are written and read is a parameter (`Codec`), of which the rules ask what a writer of
delimited records promises (`Codec.Lawful`): a record reads back, no record is a proper prefix of
another, and none holds the end of a line.

* `replay_text`: a log of glued lines and a torn end replays to its whole records.
* `fromUtf8_take_utf8`: a text cut between two characters is read, and one cut inside a character
  is not.
-/

namespace RecordLog

open Rust

/-! ### Text and bytes -/

/-- The bytes of a text. -/
def utf8 (text : List Char) : List UInt8 := text.flatMap String.utf8EncodeChar

/-- `str::from_utf8`. -/
def fromUtf8 (bytes : List UInt8) : Option (List Char) :=
  bytes.toByteArray.utf8Decode?.map Array.toList

theorem utf8_append (text more : List Char) : utf8 (text ++ more) = utf8 text ++ utf8 more :=
  List.flatMap_append

@[simp] theorem fromUtf8_utf8 (text : List Char) : fromUtf8 (utf8 text) = some text := by
  rw [fromUtf8, utf8, show (text.flatMap String.utf8EncodeChar).toByteArray = text.utf8Encode from
    rfl, List.utf8Decode?_utf8Encode]
  rfl

/-- What is read is the text of the bytes. -/
theorem fromUtf8_eq_some {bytes : List UInt8} {text : List Char} (h : fromUtf8 bytes = some text) :
    bytes = utf8 text := by
  obtain ⟨chars, hdecode, rfl⟩ := Option.map_eq_some_iff.mp h
  have hsome : bytes.toByteArray.utf8Decode?.isSome := by rw [hdecode]; rfl
  obtain ⟨text, htext⟩ := ByteArray.isSome_utf8Decode?_iff.mp hsome
  rw [htext, List.utf8Decode?_utf8Encode] at hdecode
  cases hdecode
  exact List.toByteArray_inj.mp htext

/-- Only the newline has the byte of one: every byte of a longer encoding is at least `0x80`. -/
theorem eq_newline_of_mem {ch : Char} (h : 10 ∈ String.utf8EncodeChar ch) : ch = '\n' := by
  have hmod : ∀ n : ℕ, 10 = UInt8.ofNat n → n % 256 = 10 := fun n hn =>
    (congrArg UInt8.toNat hn).symm
  have hbytes : ∀ l : List ℕ, (∀ n ∈ l, 128 ≤ n % 256) → (10 : UInt8) ∉ l.map UInt8.ofNat := by
    intro l hl hmem
    obtain ⟨n, hn, heq⟩ := List.mem_map.mp hmem
    have := hmod n heq.symm
    have := hl n hn
    omega
  dsimp only [String.utf8EncodeChar] at h
  -- the byte of a short encoding is the character; those of a longer one have the high bit
  split at h
  · have hval := hmod _ (List.mem_singleton.mp h)
    have hsmall : ch.val.toNat ≤ 127 := ‹_›
    exact Char.ext (UInt32.toNat_inj.mp (by
      change ch.val.toNat = 10
      omega))
  · split at h
    · exact absurd h (hbytes [_, _] (by simp; omega))
    · split at h
      · exact absurd h (hbytes [_, _, _] (by simp; omega))
      · exact absurd h (hbytes [_, _, _, _] (by simp; omega))

/-- A text without newlines has no byte of one. -/
theorem newline_notMem_utf8 {text : List Char} (h : '\n' ∉ text) : 10 ∉ utf8 text := by
  intro hmem
  obtain ⟨ch, hch, hbyte⟩ := List.mem_flatMap.mp hmem
  exact h (eq_newline_of_mem hbyte ▸ hch)

/-- **A cut text** is read only if the cut is between two characters. -/
theorem fromUtf8_take_utf8 {text cut : List Char} {n : ℕ}
    (h : fromUtf8 ((utf8 text).take n) = some cut) : cut <+: text := by
  have hcut := fromUtf8_eq_some h
  refine List.isPrefix_of_utf8Encode_append_eq_utf8Encode ((utf8 text).drop n).toByteArray ?_
  rw [show cut.utf8Encode = (utf8 cut).toByteArray from rfl, ← hcut, ← List.toByteArray_append,
    List.take_append_drop]
  rfl

/-! ### Lines -/

/-- `BufRead::lines`, behind the bytes of the current line.  The carriage return that `lines` drops
is white space, which the readers here trim. -/
def linesFrom : List UInt8 → List UInt8 → List (List UInt8)
  | current, [] => if current = [] then [] else [current]
  | current, byte :: bytes =>
      if byte = 10 then current :: linesFrom [] bytes else linesFrom (current ++ [byte]) bytes

def lines (bytes : List UInt8) : List (List UInt8) := linesFrom [] bytes

theorem linesFrom_append {current line rest : List UInt8} (h : 10 ∉ line) :
    linesFrom current (line ++ rest) = linesFrom (current ++ line) rest := by
  induction line generalizing current with
  | nil => rw [List.append_nil, List.nil_append]
  | cons byte line ih =>
      obtain ⟨hbyte, hline⟩ := not_or.mp (fun hmem => h (List.mem_cons.mpr hmem))
      rw [List.cons_append, linesFrom, if_neg (Ne.symm hbyte), ih hline, List.append_assoc,
        List.singleton_append]

/-- A line that is ended, and what follows it. -/
theorem lines_newline {line rest : List UInt8} (h : 10 ∉ line) :
    lines (line ++ 10 :: rest) = line :: lines rest := by
  rw [lines, linesFrom_append h, List.nil_append, linesFrom, if_pos rfl, lines]

/-- A line without its end is read if it is not empty. -/
theorem lines_last {line : List UInt8} (h : 10 ∉ line) :
    lines line = if line = [] then [] else [line] := by
  have := @linesFrom_append [] line [] h
  rwa [List.append_nil, List.nil_append] at this

/-! ### White space -/

/-- `str::trim`. -/
def trim (text : List Char) : List Char := (text.dropWhile isWhitespace).rdropWhile isWhitespace

theorem rdropWhile_append {p : Char → Bool} (text : List Char) {more : List Char}
    (h : more.rdropWhile p ≠ []) : (text ++ more).rdropWhile p = text ++ more.rdropWhile p := by
  induction more using List.reverseRecOn with
  | nil => exact absurd rfl h
  | append_singleton more ch ih =>
      rw [← List.append_assoc]
      by_cases hch : p ch
      · rw [List.rdropWhile_concat_pos _ _ _ hch] at h ⊢
        rw [ih h, List.rdropWhile_concat_pos _ _ _ hch]
      · rw [List.rdropWhile_concat_neg _ _ _ hch, List.rdropWhile_concat_neg _ _ _ hch,
          List.append_assoc]

/-! ### Records -/

/-- How a record is written, how a text is read as one record, and which records are read one after
the other from the beginning of a text, up to the first that is not whole. -/
structure Codec (E : Type*) where
  toStr : E → List Char
  fromStr : List Char → Option E
  stream : List Char → List E

variable {E : Type*}

/-- What a replay recovers, and whether a line was not one record. -/
structure Replayed (E : Type*) where
  records : List E
  corrupt : Bool

section
variable (c : Codec E) (start : List Char)

/-- The records that are read from the first place where the text begins like a record and at
least one is. -/
def salvageFrom : ℕ → List Char → List E
  | _, [] => []
  | skip + 1, _ :: text => salvageFrom skip text
  | 0, ch :: text =>
      if start.isPrefixOf (ch :: text) then
        match c.stream (ch :: text) with
        | [] => salvageFrom (start.length - 1) text
        | records => records
      else salvageFrom 0 text

def salvage (line : List Char) : List E := salvageFrom c start 0 line

def replayLine (line : List Char) : Replayed E :=
  let trimmed := trim line
  if trimmed = [] then ⟨[], false⟩
  else
    match c.fromStr trimmed with
    | some record => ⟨[record], false⟩
    | none => ⟨salvage c start trimmed, true⟩

/-- A line that is not text stops the replay. -/
def replayLines : List (List UInt8) → Option (Replayed E)
  | [] => some ⟨[], false⟩
  | line :: rest =>
      match fromUtf8 line with
      | none => none
      | some text =>
          (replayLines rest).map fun after =>
            let here := replayLine c start text
            ⟨here.records ++ after.records, here.corrupt || after.corrupt⟩

def replay (bytes : List UInt8) : Option (Replayed E) := replayLines c start (lines bytes)

end

/-- What is asked of how records are written and read: `start` begins every record. -/
structure Codec.Lawful (c : Codec E) (start : List Char) : Prop where
  start_ne_nil : start ≠ []
  start_notWhitespace : ∀ ch ∈ start.head?, isWhitespace ch = false
  start_prefix : ∀ e, start <+: c.toStr e
  last_notWhitespace : ∀ e, (c.toStr e).rdropWhile isWhitespace = c.toStr e
  newline_notMem : ∀ e, '\n' ∉ c.toStr e
  fromStr_toStr : ∀ e, c.fromStr (c.toStr e) = some e
  fromStr_torn : ∀ e torn, torn <+: c.toStr e → torn ≠ c.toStr e → c.fromStr torn = none
  fromStr_glued : ∀ e rest, (∃ ch ∈ rest, isWhitespace ch = false) →
    c.fromStr (c.toStr e ++ rest) = none
  stream_toStr : ∀ e rest, c.stream (c.toStr e ++ rest) = e :: c.stream rest
  stream_torn : ∀ e torn, torn <+: c.toStr e → torn ≠ c.toStr e → c.stream torn = []

/-! ### Glued lines and a torn end -/

section
variable (c : Codec E) (start : List Char)

/-- The records, one behind the other. -/
def glue (records : List E) : List Char := records.flatMap c.toStr

/-- A torn end: nothing, or the beginning of a record that holds no whole one. -/
def Torn (torn : List Char) : Prop :=
  torn = [] ∨ ((∃ e, torn <+: c.toStr e ∧ torn ≠ c.toStr e) ∧ salvage c start (trim torn) = [])

end

section
variable {c : Codec E} {start : List Char} (h : c.Lawful start)
include h

/-- A record, or the beginning of one, does not begin with white space. -/
theorem Codec.Lawful.dropWhile_prefix {e : E} {text : List Char} (htext : text ≠ [])
    (hpre : text <+: c.toStr e) (rest : List Char) :
    (text ++ rest).dropWhile isWhitespace = text ++ rest := by
  obtain ⟨keys, hkeys⟩ := h.start_prefix e
  obtain ⟨after, hafter⟩ := hpre
  cases hstart : start with
  | nil => exact absurd hstart h.start_ne_nil
  | cons ch start' =>
      cases text with
      | nil => exact absurd rfl htext
      | cons ch' text =>
          have hch : ch' = ch := by
            rw [← hafter, hstart] at hkeys
            exact ((List.cons.inj hkeys).1).symm
          have hws := h.start_notWhitespace ch (by rw [hstart]; rfl)
          rw [hch, List.cons_append, List.dropWhile_cons_of_neg (by simp [hws])]

theorem Codec.Lawful.toStr_ne_nil (e : E) : c.toStr e ≠ [] := by
  intro hnil
  have := h.start_prefix e
  rw [hnil] at this
  exact h.start_ne_nil (List.prefix_nil.mp this)

/-- The beginning of a record keeps its first character when it is trimmed. -/
theorem Codec.Lawful.exists_notWhitespace {e : E} {text : List Char} (htext : text ≠ [])
    (hpre : text <+: c.toStr e) : ∃ ch ∈ text, isWhitespace ch = false := by
  have hdrop := h.dropWhile_prefix htext hpre []
  rw [List.append_nil] at hdrop
  cases text with
  | nil => exact absurd rfl htext
  | cons ch text =>
      refine ⟨ch, List.mem_cons_self, ?_⟩
      by_contra hch
      rw [List.dropWhile_cons_of_pos (by simpa using hch)] at hdrop
      have := congrArg List.length hdrop
      have := List.length_dropWhile_le isWhitespace text
      simp only [List.length_cons] at *
      omega

theorem Codec.Lawful.dropWhile_glue (records : List E) {torn : List Char}
    (htorn : torn = [] ∨ ∃ e, torn <+: c.toStr e) :
    (glue c records ++ torn).dropWhile isWhitespace = glue c records ++ torn := by
  cases records with
  | nil =>
      by_cases hnil : torn = []
      · rw [hnil]
        rfl
      · obtain ⟨e, he⟩ := htorn.resolve_left hnil
        have := h.dropWhile_prefix hnil he []
        rwa [List.append_nil] at this
  | cons e records =>
      rw [glue, List.flatMap_cons, List.append_assoc]
      exact h.dropWhile_prefix (h.toStr_ne_nil e) (List.prefix_refl _) _

theorem Codec.Lawful.rdropWhile_glue (records : List E) :
    (glue c records).rdropWhile isWhitespace = glue c records := by
  induction records using List.reverseRecOn with
  | nil => rfl
  | append_singleton records e _ =>
      have hlast := h.last_notWhitespace e
      have hne : (c.toStr e).rdropWhile isWhitespace ≠ [] := by
        rw [hlast]
        exact h.toStr_ne_nil e
      rw [glue, List.flatMap_append, List.flatMap_singleton, rdropWhile_append _ hne, hlast]

/-- Trimming takes only the white space at the end of a torn record. -/
theorem Codec.Lawful.trim_glue (records : List E) {torn : List Char}
    (htorn : torn = [] ∨ ∃ e, torn <+: c.toStr e) :
    trim (glue c records ++ torn) = glue c records ++ torn.rdropWhile isWhitespace := by
  rw [trim, h.dropWhile_glue records htorn]
  by_cases hnil : torn = []
  · rw [hnil, List.rdropWhile_nil, List.append_nil, h.rdropWhile_glue]
  · obtain ⟨e, he⟩ := htorn.resolve_left hnil
    obtain ⟨ch, hch, hws⟩ := h.exists_notWhitespace hnil he
    refine rdropWhile_append _ fun hall => ?_
    have := List.rdropWhile_eq_nil_iff.mp hall ch hch
    rw [hws] at this
    cases this

/-- Glued records are read one after the other. -/
theorem Codec.Lawful.stream_glue (records : List E) (rest : List Char) :
    c.stream (glue c records ++ rest) = records ++ c.stream rest := by
  induction records with
  | nil => rfl
  | cons e records ih =>
      rw [glue, List.flatMap_cons, List.append_assoc, h.stream_toStr]
      exact congrArg (e :: ·) ih

/-- A line that begins with a record is salvaged from its first character. -/
theorem Codec.Lawful.salvage_toStr (e : E) (rest : List Char) :
    salvage c start (c.toStr e ++ rest) = c.stream (c.toStr e ++ rest) := by
  have hpre : start.isPrefixOf (c.toStr e ++ rest) :=
    List.isPrefixOf_iff_prefix.mpr ((h.start_prefix e).trans (List.prefix_append _ _))
  have hstream := h.stream_toStr e rest
  generalize c.toStr e ++ rest = line at hpre hstream
  cases line with
  | nil =>
      have := List.prefix_nil.mp (List.isPrefixOf_iff_prefix.mp hpre)
      exact absurd this h.start_ne_nil
  | cons ch line => rw [salvage, salvageFrom, if_pos hpre, hstream]

/-- **A line of glued records**, the last one torn perhaps, is read as its whole records. -/
theorem Codec.Lawful.replayLine_glue (records : List E) {torn : List Char}
    (htorn : Torn c start torn) :
    ∃ corrupt, replayLine c start (glue c records ++ torn) = ⟨records, corrupt⟩ ∧
      (torn ≠ [] → corrupt = true) := by
  have hbegin : torn = [] ∨ ∃ e, torn <+: c.toStr e :=
    htorn.imp_right fun ht => ht.1.imp fun _ he => he.1
  have htrim := h.trim_glue records hbegin
  have htrimmed := h.trim_glue [] hbegin
  rw [replayLine, htrim]
  generalize hq : torn.rdropWhile isWhitespace = q at htrim htrimmed
  -- what is left of the torn end is still torn
  have hq_torn : torn ≠ [] → (∃ e, q <+: c.toStr e ∧ q ≠ c.toStr e) ∧ q ≠ [] ∧
      salvage c start q = [] := by
    intro hne
    obtain ⟨⟨e, he, hlt⟩, hsalvage⟩ := htorn.resolve_left hne
    have hle : q <+: torn := hq ▸ List.rdropWhile_prefix _ _
    refine ⟨⟨e, hle.trans he, ?_⟩, ?_, ?_⟩
    · rintro rfl
      exact hlt (he.eq_of_length_le hle.length_le)
    · obtain ⟨ch, hch, hws⟩ := h.exists_notWhitespace hne he
      intro hnil
      have := List.rdropWhile_eq_nil_iff.mp (hq.trans hnil) ch hch
      rw [hws] at this
      cases this
    · rw [← hsalvage]
      exact congrArg _ htrimmed.symm
  have hq_nil : torn = [] → q = [] := by
    rintro rfl
    exact hq.symm
  cases records with
  | nil =>
      by_cases hne : torn = []
      · rw [hq_nil hne]
        exact ⟨false, rfl, fun h => absurd hne h⟩
      · obtain ⟨⟨e, he, hlt⟩, hqne, hsalvage⟩ := hq_torn hne
        have hline : glue c [] ++ q = q := rfl
        simp only [hline, if_neg hqne, h.fromStr_torn e q he hlt, hsalvage]
        exact ⟨true, rfl, fun _ => rfl⟩
  | cons e records =>
      have hline : glue c (e :: records) ++ q = c.toStr e ++ (glue c records ++ q) := by
        rw [glue, List.flatMap_cons, List.append_assoc]
        rfl
      have hne : c.toStr e ++ (glue c records ++ q) ≠ [] := fun hnil =>
        h.toStr_ne_nil e (List.append_eq_nil_iff.mp hnil).1
      simp only [hline, if_neg hne]
      by_cases hmore : glue c records ++ q = []
      · -- the record is alone on its line
        obtain ⟨hrecords, hqnil⟩ := List.append_eq_nil_iff.mp hmore
        have htorn_nil : torn = [] := by
          by_contra hne
          exact (hq_torn hne).2.1 hqnil
        have hnone : records = [] := by
          cases records with
          | nil => rfl
          | cons e' records =>
              rw [glue, List.flatMap_cons] at hrecords
              exact absurd (List.append_eq_nil_iff.mp hrecords).1 (h.toStr_ne_nil e')
        rw [hmore, List.append_nil, h.fromStr_toStr, hnone]
        exact ⟨false, rfl, fun h => absurd htorn_nil h⟩
      · -- more follows on the line, and the records are salvaged from it
        have hws : ∃ ch ∈ glue c records ++ q, isWhitespace ch = false := by
          cases records with
          | nil =>
              have hne : torn ≠ [] := fun hnil => hmore (hq_nil hnil)
              obtain ⟨⟨e', he', -⟩, hqne, -⟩ := hq_torn hne
              exact h.exists_notWhitespace hqne he'
          | cons e' records =>
              obtain ⟨ch, hch, hws⟩ :=
                h.exists_notWhitespace (h.toStr_ne_nil e') (List.prefix_refl _)
              refine ⟨ch, ?_, hws⟩
              rw [glue, List.flatMap_cons, List.append_assoc]
              exact List.mem_append_left _ hch
        have hstream : c.stream q = [] := by
          by_cases hne : torn = []
          · rw [hq_nil hne]
            exact h.stream_torn e [] List.nil_prefix (Ne.symm (h.toStr_ne_nil e))
          · obtain ⟨⟨e', he', hlt⟩, -⟩ := hq_torn hne
            exact h.stream_torn e' q he' hlt
        rw [h.fromStr_glued e _ hws, h.salvage_toStr, ← hline, h.stream_glue, hstream,
          List.append_nil]
        exact ⟨true, rfl, fun _ => rfl⟩

theorem Codec.Lawful.newline_notMem_glue (records : List E) : '\n' ∉ glue c records := by
  intro hmem
  obtain ⟨e, -, he⟩ := List.mem_flatMap.mp hmem
  exact h.newline_notMem e he

theorem Codec.Lawful.newline_notMem_line (records : List E) {torn : List Char}
    (htorn : Torn c start torn) : '\n' ∉ glue c records ++ torn := by
  intro hmem
  rcases List.mem_append.mp hmem with hmem | hmem
  · exact h.newline_notMem_glue records hmem
  · rcases htorn with rfl | ⟨⟨e, he, -⟩, -⟩
    · cases hmem
    · exact h.newline_notMem e (he.subset hmem)

end

/-- A log: ended lines of glued records, the records glued on the last line, and a torn one. -/
def text (c : Codec E) (ended : List (List E)) (last : List E) (torn : List Char) : List Char :=
  (ended.flatMap fun records => glue c records ++ ['\n']) ++ (glue c last ++ torn)

/-- A line that is ended, before the rest of the log. -/
theorem text_cons (c : Codec E) (records : List E) (ended : List (List E)) (last : List E)
    (torn : List Char) :
    utf8 (text c (records :: ended) last torn) =
      utf8 (glue c records) ++ 10 :: utf8 (text c ended last torn) := by
  simp only [text, List.flatMap_cons, List.append_assoc, utf8_append]
  rfl

section
variable {c : Codec E} {start : List Char} (h : c.Lawful start)
include h

/-- **A log replays to its whole records**, and to be corrupt if its end is torn. -/
theorem Codec.Lawful.replay_text (ended : List (List E)) (last : List E) {torn : List Char}
    (htorn : Torn c start torn) :
    ∃ corrupt, replay c start (utf8 (text c ended last torn)) =
        some ⟨ended.flatten ++ last, corrupt⟩ ∧
      (torn ≠ [] → corrupt = true) := by
  induction ended with
  | nil =>
      have hnewline := newline_notMem_utf8 (h.newline_notMem_line last htorn)
      obtain ⟨corrupt, hline, hcorrupt⟩ := h.replayLine_glue last htorn
      rw [show text c [] last torn = glue c last ++ torn from rfl, replay, lines_last hnewline]
      split
      · -- an empty line is not read, and holds nothing
        rename_i hnil
        have hempty : glue c last ++ torn = [] := by
          have := fromUtf8_utf8 (glue c last ++ torn)
          rw [hnil] at this
          exact (Option.some.inj this).symm
        obtain ⟨hlast, htorn_nil⟩ := List.append_eq_nil_iff.mp hempty
        have hnone : last = [] := by
          cases last with
          | nil => rfl
          | cons e last =>
              rw [glue, List.flatMap_cons] at hlast
              exact absurd (List.append_eq_nil_iff.mp hlast).1 (h.toStr_ne_nil e)
        rw [hnone]
        exact ⟨false, rfl, fun hne => absurd htorn_nil hne⟩
      · refine ⟨corrupt, ?_, hcorrupt⟩
        simp only [replayLines, fromUtf8_utf8, hline, Option.map_some, List.append_nil,
          Bool.or_false, List.flatten_nil, List.nil_append]
  | cons records ended ih =>
      obtain ⟨corrupt, hrest, hcorrupt⟩ := ih
      have hwhole : Torn c start [] := .inl rfl
      obtain ⟨here, hline, -⟩ := h.replayLine_glue records hwhole
      rw [List.append_nil] at hline
      refine ⟨here || corrupt, ?_, fun hne => by rw [hcorrupt hne, Bool.or_true]⟩
      rw [replay] at hrest
      rw [text_cons, replay, lines_newline (newline_notMem_utf8 (h.newline_notMem_glue records)),
        replayLines, fromUtf8_utf8]
      simp only [hrest, hline, Option.map_some, List.flatten_cons, List.append_assoc]

end

/-! ### Appending -/

section
variable (c : Codec E) (ended : List (List E)) (last : List E) (e : E)

/-- A record with the end of its line is glued to the last line, and ends it. -/
theorem text_append_line :
    text c ended last [] ++ (c.toStr e ++ ['\n']) = text c (ended ++ [last ++ [e]]) [] [] := by
  simp [text, glue, List.flatMap_append]

/-- A record without the end of its line is glued to the last line. -/
theorem text_append_record : text c ended last [] ++ c.toStr e = text c ended (last ++ [e]) [] := by
  simp [text, glue, List.flatMap_append]

theorem text_append_torn (torn : List Char) :
    text c ended last [] ++ torn = text c ended last torn := by
  simp [text]

end

/-! ### A cut inside a character -/

section
variable {c : Codec E} {start : List Char} (h : c.Lawful start)
include h

/-- **A part of a line that is not text** stops the replay. -/
theorem Codec.Lawful.replay_split (ended : List (List E)) (last : List E) {part : List UInt8}
    (hline : 10 ∉ part) (hpart : ∀ rest, part ≠ utf8 rest) :
    replay c start (utf8 (text c ended last []) ++ part) = none := by
  induction ended with
  | nil =>
      have hbytes : utf8 (text c [] last []) = utf8 (glue c last) := by
        rw [show text c [] last [] = glue c last ++ [] from rfl, List.append_nil]
      have hnewline : 10 ∉ utf8 (glue c last) ++ part := by
        intro hmem
        rcases List.mem_append.mp hmem with hmem | hmem
        · exact newline_notMem_utf8 (h.newline_notMem_glue last) hmem
        · exact hline hmem
      have hne : utf8 (glue c last) ++ part ≠ [] := fun hnil =>
        hpart [] (List.append_eq_nil_iff.mp hnil).2
      rw [hbytes, replay, lines_last hnewline, if_neg hne, replayLines]
      cases hread : fromUtf8 (utf8 (glue c last) ++ part) with
      | none => rfl
      | some read =>
          -- the text read would begin with the whole records
          have hread := fromUtf8_eq_some hread
          have hpre : glue c last <+: read := by
            refine fromUtf8_take_utf8 (n := (utf8 (glue c last)).length) ?_
            rw [← hread, List.take_left, fromUtf8_utf8]
          obtain ⟨rest, rfl⟩ := hpre
          rw [utf8_append] at hread
          exact absurd (List.append_cancel_left hread) (hpart rest)
  | cons records ended ih =>
      rw [replay] at ih
      rw [text_cons, List.append_assoc, List.cons_append, replay,
        lines_newline (newline_notMem_utf8 (h.newline_notMem_glue records)), replayLines,
        fromUtf8_utf8, ih]
      rfl

end

/-! ### The codec of a writer -/

section
variable (write : E → List Char)

open Classical in
/-- The records that a text begins with, at most `n`. -/
noncomputable def streamOf : ℕ → List Char → List E
  | 0, _ => []
  | n + 1, text =>
      if h : ∃ p : E × List Char, text = write p.1 ++ p.2 then
        h.choose.1 :: streamOf n h.choose.2
      else []

open Classical in
/-- What reads back exactly the texts that are written. -/
noncomputable def Codec.ofWrite : Codec E where
  toStr := write
  fromStr text := if h : ∃ e, write e = text then some h.choose else none
  stream text := streamOf write text.length text

variable {write} (hpre : ∀ e e', write e <+: write e' → e = e') (hne : ∀ e, write e ≠ [])
include hpre

theorem fromStr_ofWrite {e : E} {text : List Char} :
    (Codec.ofWrite write).fromStr text = some e ↔ write e = text := by
  constructor
  · intro h
    simp only [Codec.ofWrite] at h
    split at h
    · rename_i hex
      cases h
      exact hex.choose_spec
    · cases h
  · intro h
    have hex : ∃ e, write e = text := ⟨e, h⟩
    simp only [Codec.ofWrite]
    rw [dif_pos hex]
    have heq := hex.choose_spec.trans h.symm
    exact congrArg some (hpre _ _ (by rw [heq]))

theorem streamOf_append (n : ℕ) (e : E) (rest : List Char) :
    streamOf write (n + 1) (write e ++ rest) = e :: streamOf write n rest := by
  have hex : ∃ p : E × List Char, write e ++ rest = write p.1 ++ p.2 := ⟨(e, rest), rfl⟩
  rw [streamOf, dif_pos hex]
  have hspec := hex.choose_spec
  generalize hex.choose = p at hspec
  -- two records that begin one text are the same
  have heq : e = p.1 := by
    rcases List.prefix_or_prefix_of_prefix (List.prefix_append (write e) rest)
      (hspec ▸ List.prefix_append (write p.1) p.2) with h | h
    · exact hpre _ _ h
    · exact (hpre _ _ h).symm
  subst heq
  rw [List.append_cancel_left hspec]

omit hpre in
/-- A text that begins with no record. -/
theorem streamOf_eq_nil (n : ℕ) {text : List Char}
    (h : ¬ ∃ p : E × List Char, text = write p.1 ++ p.2) : streamOf write n text = [] := by
  cases n with
  | zero => rfl
  | succ n => rw [streamOf, dif_neg h]

include hne

theorem streamOf_of_le {n n' : ℕ} {text : List Char} (hn : text.length ≤ n)
    (hn' : text.length ≤ n') : streamOf write n text = streamOf write n' text := by
  induction n generalizing n' text with
  | zero =>
      have hnone : ¬ ∃ p : E × List Char, text = write p.1 ++ p.2 := by
        rintro ⟨p, hp⟩
        rw [List.length_eq_zero_iff.mp (Nat.le_zero.mp hn)] at hp
        exact hne p.1 (List.append_eq_nil_iff.mp hp.symm).1
      rw [streamOf_eq_nil 0 hnone, streamOf_eq_nil n' hnone]
  | succ n ih =>
      by_cases hex : ∃ p : E × List Char, text = write p.1 ++ p.2
      · obtain ⟨⟨e, rest⟩, rfl⟩ := hex
        dsimp only at hn hn' ⊢
        have hpos := List.length_pos_of_ne_nil (hne e)
        rw [List.length_append] at hn hn'
        obtain ⟨k, rfl⟩ : ∃ k, n' = k + 1 := ⟨n' - 1, by omega⟩
        have hrest : streamOf write n rest = streamOf write k rest := ih (by omega) (by omega)
        rw [streamOf_append hpre, streamOf_append hpre, hrest]
      · rw [streamOf_eq_nil _ hex, streamOf_eq_nil _ hex]

/-- **A writer of delimited records** has a lawful codec. -/
theorem Codec.lawful_ofWrite {start : List Char} (hstart : start ≠ [])
    (hopen : ∀ ch ∈ start.head?, isWhitespace ch = false)
    (hbegin : ∀ e, start <+: write e)
    (hlast : ∀ e, (write e).rdropWhile isWhitespace = write e)
    (hnewline : ∀ e, '\n' ∉ write e) : (Codec.ofWrite write).Lawful start where
  start_ne_nil := hstart
  start_notWhitespace := hopen
  start_prefix := hbegin
  last_notWhitespace := hlast
  newline_notMem := hnewline
  fromStr_toStr _ := (fromStr_ofWrite hpre).mpr rfl
  fromStr_torn e torn htorn hne' := by
    refine Option.eq_none_iff_forall_ne_some.mpr fun e' he' => ?_
    have htext := (fromStr_ofWrite hpre).mp he'
    have heq := hpre e' e (htext ▸ htorn)
    exact hne' (htext.symm.trans (congrArg write heq))
  fromStr_glued e rest hrest := by
    obtain ⟨ch, hch, -⟩ := hrest
    refine Option.eq_none_iff_forall_ne_some.mpr fun e' he' => ?_
    have htext := (fromStr_ofWrite hpre).mp he'
    have heq := hpre e e' (htext ▸ List.prefix_append _ _)
    rw [← heq] at htext
    have hnil := List.append_right_eq_self.mp htext.symm
    rw [hnil] at hch
    cases hch
  stream_toStr e rest := by
    have hpos := List.length_pos_of_ne_nil (hne e)
    change streamOf write (write e ++ rest).length (write e ++ rest) = _
    rw [List.length_append]
    obtain ⟨k, hk⟩ : ∃ k, (write e).length + rest.length = k + 1 :=
      ⟨(write e).length + rest.length - 1, by omega⟩
    rw [hk, streamOf_append hpre]
    exact congrArg (e :: ·) (streamOf_of_le hpre hne (by omega) le_rfl)
  stream_torn e torn htorn hne' := by
    refine streamOf_eq_nil _ ?_
    rintro ⟨⟨e', rest⟩, rfl⟩
    dsimp only at htorn hne'
    obtain rfl := hpre e' e ((List.prefix_append _ _).trans htorn)
    have hle : (write e' ++ rest).length ≤ (write e').length := htorn.length_le
    rw [List.length_append] at hle
    have hnil : rest = [] := List.length_eq_zero_iff.mp (by omega)
    exact hne' (by rw [hnil, List.append_nil]; rfl)

end

end RecordLog
