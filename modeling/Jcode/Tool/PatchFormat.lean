import Jcode.Tool.ApplyPatch

/-!
# Tool — the patch format

What a patch is written for: files that are added, deleted or updated, and for an update the chunks
of lines that are kept, added or removed.  `renderPatch` writes it in the format that
`parse_apply_patch` reads.

* `parse_apply_patch_render`: the parser gives back what was written, and it returns on every text.

A line of a file is written behind a mark, so that no line is read as a directive.  A header `@@`
may be left out before the first chunk of a file, if that does not begin with a blank line.
-/

namespace Jcode.Tool
open Rust

/-! ### The format -/

/-- A line of a file. -/
structure FileLine where
  text : String
  isLine : IsLine text
  noCr : text.toList.getLast? ≠ some '\r'

structure PatchPath where
  text : String
  isLine : IsLine text
  trimmed : trim text = text
  nonempty : text ≠ ""

/-- The line behind `@@`. -/
structure ContextLine where
  text : String
  isLine : IsLine text
  trimmed : trimEnd text = text
  nonblank : trim text ≠ ""

/-- A line of a chunk.  An empty line that is kept may be written without its mark. -/
inductive DiffLine where
  | context (line : FileLine)
  | added (line : FileLine)
  | removed (line : FileLine)
  | empty

namespace DiffLine

def render : DiffLine → String
  | .context line => " " ++ line.text
  | .added line => "+" ++ line.text
  | .removed line => "-" ++ line.text
  | .empty => ""

def oldLines : DiffLine → List String
  | .context line => [line.text]
  | .added _ => []
  | .removed line => [line.text]
  | .empty => [""]

def newLines : DiffLine → List String
  | .context line => [line.text]
  | .added line => [line.text]
  | .removed _ => []
  | .empty => [""]

/-- It is not blank as it is written. -/
def Visible : DiffLine → Prop
  | .context line => trimEnd line.text ≠ ""
  | .added _ => True
  | .removed _ => True
  | .empty => False

end DiffLine

inductive ChunkHeader where
  | absent
  | bare
  | context (line : ContextLine)

namespace ChunkHeader

def render : ChunkHeader → List String
  | .absent => []
  | .bare => ["@@"]
  | .context line => ["@@ " ++ line.text]

def changeContext : ChunkHeader → Option String
  | .absent => none
  | .bare => none
  | .context line => some line.text

end ChunkHeader

structure Chunk where
  header : ChunkHeader
  lines : List DiffLine
  isEndOfFile : Bool
  nonempty : lines ≠ [] ∨ header.changeContext ≠ none

namespace Chunk

def render (c : Chunk) : List String :=
  c.header.render ++ c.lines.map DiffLine.render ++
    if c.isEndOfFile then ["*** End of File"] else []

def toUpdateFileChunk (c : Chunk) : UpdateFileChunk where
  changeContext := c.header.changeContext
  oldLines := c.lines.flatMap DiffLine.oldLines
  newLines := c.lines.flatMap DiffLine.newLines
  isEndOfFile := c.isEndOfFile

end Chunk

/-- The header of the first chunk may be left out. -/
structure FileUpdate where
  path : PatchPath
  moveTo : Option PatchPath
  first : Chunk
  visible : first.header = .absent → ∃ line ∈ first.lines.head?, line.Visible
  rest : List Chunk
  headed : ∀ c ∈ rest, c.header ≠ .absent

inductive FileChange where
  | add (path : PatchPath) (lines : List FileLine)
  | delete (path : PatchPath)
  | update (u : FileUpdate)

namespace FileChange

def render : FileChange → List String
  | .add path lines =>
      ("*** Add File: " ++ path.text) :: lines.map fun line => "+" ++ line.text
  | .delete path => ["*** Delete File: " ++ path.text]
  | .update u =>
      ("*** Update File: " ++ u.path.text) ::
        ((u.moveTo.map fun path => "*** Move to: " ++ path.text).toList ++
          (u.first.render ++ u.rest.flatMap Chunk.render))

def toPatchHunk : FileChange → PatchHunk
  | .add path lines => .addFile path.text (text (lines.map FileLine.text))
  | .delete path => .deleteFile path.text
  | .update u =>
      .updateFile u.path.text (u.moveTo.map PatchPath.text)
        ((u.first :: u.rest).map Chunk.toUpdateFileChunk)

end FileChange

def renderPatch (changes : List FileChange) : String :=
  text ("*** Begin Patch" :: (changes.flatMap FileChange.render ++ ["*** End Patch"]))

/-! ### What is written are lines -/

/-- `str::lines` gives this line back. -/
def Plain (l : String) : Prop := IsLine l ∧ l.toList.getLast? ≠ some '\r'

instance (l : String) : Decidable (Plain l) :=
  inferInstanceAs (Decidable (¬ '\n' ∈ l.toList ∧ ¬ l.toList.getLast? = some '\r'))

theorem Plain.append {mark l : String} (hmark : Plain mark) (hl : Plain l) : Plain (mark ++ l) := by
  constructor
  · rw [IsLine, String.toList_append, List.mem_append, not_or]
    exact ⟨hmark.1, hl.1⟩
  · rw [String.toList_append, List.getLast?_append]
    cases h : l.toList.getLast? with
    | none => exact hmark.2
    | some c => exact fun hc => hl.2 (h.trans hc)

/-- A line without blanks at its end has no carriage return there. -/
theorem Plain.of_trimmed {l : String} (hl : IsLine l) (h : trimEnd l = l) : Plain l := by
  refine ⟨hl, fun hcr => ?_⟩
  have hlist : l.toList.rdropWhile isWhitespace = l.toList := by
    simpa [trimEnd] using congrArg String.toList h
  have hne : l.toList ≠ [] := fun hnil => by
    rw [hnil] at hcr
    cases hcr
  have hlast : l.toList.getLast hne = '\r' :=
    Option.some.inj ((List.getLast?_eq_some_getLast hne).symm.trans hcr)
  exact List.rdropWhile_eq_self_iff.mp hlist hne (hlast ▸ by decide)

theorem trimEnd_of_trim {s : String} (h : trim s = s) : trimEnd s = s := by
  have hlist : (s.toList.dropWhile isWhitespace).rdropWhile isWhitespace = s.toList := by
    simpa [trim] using congrArg String.toList h
  rw [trimEnd, ← hlist, List.rdropWhile_idempotent, hlist, String.ofList_toList]

theorem FileLine.plain (line : FileLine) : Plain line.text := ⟨line.isLine, line.noCr⟩

theorem PatchPath.trimEnd (path : PatchPath) : trimEnd path.text = path.text :=
  trimEnd_of_trim path.trimmed

theorem PatchPath.plain (path : PatchPath) : Plain path.text :=
  .of_trimmed path.isLine path.trimEnd

theorem ContextLine.plain (line : ContextLine) : Plain line.text :=
  .of_trimmed line.isLine line.trimmed

theorem ContextLine.nonempty (line : ContextLine) : line.text ≠ "" :=
  fun h => line.nonblank (by rw [h]; rfl)

theorem DiffLine.plain (line : DiffLine) : Plain line.render := by
  cases line with
  | context line => exact .append (by decide) line.plain
  | added line => exact .append (by decide) line.plain
  | removed line => exact .append (by decide) line.plain
  | empty => exact ⟨by simp [IsLine, DiffLine.render], by simp [DiffLine.render]⟩

theorem ChunkHeader.plain (header : ChunkHeader) : ∀ l ∈ header.render, Plain l := by
  cases header with
  | absent => exact fun _ hl => absurd hl List.not_mem_nil
  | bare => exact List.forall_mem_singleton.mpr (by decide)
  | context line => exact List.forall_mem_singleton.mpr (.append (by decide) line.plain)

theorem Chunk.plain (c : Chunk) : ∀ l ∈ c.render, Plain l := by
  intro l hl
  rcases List.mem_append.mp hl with hl | hl
  · rcases List.mem_append.mp hl with hl | hl
    · exact c.header.plain l hl
    · obtain ⟨line, -, rfl⟩ := List.mem_map.mp hl
      exact line.plain
  · split at hl
    · rw [List.mem_singleton.mp hl]
      decide
    · cases hl

theorem FileChange.plain (change : FileChange) : ∀ l ∈ change.render, Plain l := by
  intro l hl
  cases change with
  | add path lines =>
      rcases List.mem_cons.mp hl with rfl | hl
      · exact .append (by decide) path.plain
      · obtain ⟨line, -, rfl⟩ := List.mem_map.mp hl
        exact .append (by decide) line.plain
  | delete path =>
      rw [List.mem_singleton.mp hl]
      exact .append (by decide) path.plain
  | update u =>
      rcases List.mem_cons.mp hl with rfl | hl
      · exact .append (by decide) u.path.plain
      · rcases List.mem_append.mp hl with hl | hl
        · obtain ⟨path, -, rfl⟩ := Option.map_eq_some_iff.mp (Option.mem_toList.mp hl)
          exact .append (by decide) path.plain
        · rw [← List.flatMap_cons] at hl
          obtain ⟨c, -, hl⟩ := List.mem_flatMap.mp hl
          exact c.plain l hl

/-- The lines of the text are the lines that were written. -/
theorem lines_renderPatch (changes : List FileChange) :
    lines (renderPatch changes) =
      "*** Begin Patch" :: (changes.flatMap FileChange.render ++ ["*** End Patch"]) := by
  have hplain : ∀ l ∈ "*** Begin Patch" :: (changes.flatMap FileChange.render ++
      ["*** End Patch"]), Plain l := by
    rw [List.forall_mem_cons, List.forall_mem_append, List.forall_mem_singleton]
    refine ⟨by decide, fun l hl => ?_, by decide⟩
    obtain ⟨change, -, hl⟩ := List.mem_flatMap.mp hl
    exact change.plain l hl
  rw [renderPatch, lines_text fun l hl => (hplain l hl).1]
  refine (List.map_congr_left fun l hl => ?_).trans (List.map_id _)
  rw [stripCr_eq_self (hplain l hl).2, String.ofList_toList]
  rfl

/-! ### The lines of a chunk -/

/-- The line begins with one of the marks, or there is nothing in it. -/
def marked (l : String) : Bool := l.toList.head?.all fun c => c == ' ' || c == '+' || c == '-'

theorem DiffLine.marked_render (line : DiffLine) : marked line.render = true := by
  cases line with
  | context line => rw [marked, DiffLine.render, String.toList_append]; rfl
  | added line => rw [marked, DiffLine.render, String.toList_append]; rfl
  | removed line => rw [marked, DiffLine.render, String.toList_append]; rfl
  | empty => rfl

/-- A directive or a header is no line of a chunk. -/
theorem startsWith_of_marked {l : String} (h : marked l = true) (pattern : String)
    (hpattern : marked pattern = false) : startsWith l pattern = false := by
  refine Bool.eq_false_iff.mpr fun hstart => Bool.eq_false_iff.mp hpattern ?_
  obtain ⟨cs, hcs⟩ := startsWith_iff.mp hstart
  rw [marked, ← hcs, List.head?_append] at h
  rw [marked]
  cases hhead : pattern.toList.head? with
  | none => rfl
  | some c => rwa [hhead] at h

/-- What is read of a line. -/
def DiffLines.read (d : DiffLines) (line : DiffLine) : DiffLines :=
  { d with
    oldLines := d.oldLines ++ line.oldLines
    newLines := d.newLines ++ line.newLines
    hadDiffLines := true }

theorem diffLines_cons (d : DiffLines) (line : DiffLine) (rest : List String) :
    diffLines d (line.render :: rest) = diffLines (d.read line) rest := by
  have hdirective := startsWith_of_marked line.marked_render "*** " rfl
  have hheader := startsWith_of_marked line.marked_render "@@" rfl
  have hend : line.render ≠ "*** End of File" := fun h => by
    rw [h] at hdirective
    exact absurd hdirective (by decide)
  rw [diffLines, if_neg hend, if_neg (by rw [hdirective, hheader]; decide)]
  cases line with
  | context line =>
      simp only [DiffLine.render, stripPrefix_append]
      rfl
  | added line =>
      have hspace : stripPrefix ("+" ++ line.text) " " = none := by
        simp [stripPrefix, startsWith]
      simp only [DiffLine.render, hspace, stripPrefix_append]
      simp [DiffLines.read, DiffLine.oldLines, DiffLine.newLines]
  | removed line =>
      have hspace : stripPrefix ("-" ++ line.text) " " = none := by
        simp [stripPrefix, startsWith]
      have hplus : stripPrefix ("-" ++ line.text) "+" = none := by
        simp [stripPrefix, startsWith]
      simp only [DiffLine.render, hspace, hplus, stripPrefix_append]
      simp [DiffLines.read, DiffLine.oldLines, DiffLine.newLines]
  | empty => rfl

theorem diffLines_append (d : DiffLines) (ls : List DiffLine) (rest : List String) :
    diffLines d (ls.map DiffLine.render ++ rest) = diffLines (ls.foldl DiffLines.read d) rest := by
  induction ls generalizing d with
  | nil => rfl
  | cons line ls ih => rw [List.map_cons, List.cons_append, diffLines_cons, ih, List.foldl_cons]

theorem foldl_read (ls : List DiffLine) (d : DiffLines) :
    ls.foldl DiffLines.read d =
      { d with
        oldLines := d.oldLines ++ ls.flatMap DiffLine.oldLines
        newLines := d.newLines ++ ls.flatMap DiffLine.newLines
        hadDiffLines := d.hadDiffLines || !ls.isEmpty } := by
  induction ls generalizing d with
  | nil => simp
  | cons line ls ih => simp [ih, DiffLines.read]

/-- A directive, as it is written: the lines of a chunk and the chunks of a file end before it. -/
structure Directive (l : String) : Prop where
  trimmed : trimEnd l = l
  starts : startsWith l "*** " = true
  ne_end : l ≠ "*** End of File"

/-- The lines of a chunk end before the first of these. -/
def EndsChunk (rest : List String) : Prop :=
  ∃ l ls, rest = l :: ls ∧ l ≠ "*** End of File" ∧
    (startsWith l "*** " || startsWith l "@@") = true

theorem diffLines_of_endsChunk {rest : List String} (h : EndsChunk rest) (d : DiffLines) :
    diffLines d rest = { d with rest := rest } := by
  obtain ⟨l, ls, rfl, hend, hstop⟩ := h
  rw [diffLines, if_neg hend, if_pos hstop]

/-- **The lines of a chunk are read**, up to its end. -/
theorem diffLines_chunk (c : Chunk) {rest : List String} (h : EndsChunk rest) :
    let d := diffLines {} (c.lines.map DiffLine.render ++
      ((if c.isEndOfFile then ["*** End of File"] else []) ++ rest))
    d.rest = rest ∧ d.chunk c.header.changeContext = [c.toUpdateFileChunk] := by
  have hsome : (!c.lines.isEmpty || c.header.changeContext.isSome) = true := by
    rcases c.nonempty with hlines | hcontext
    · simp [hlines]
    · simp [Option.isSome_iff_ne_none.mpr hcontext]
  dsimp only
  rw [diffLines_append, foldl_read]
  cases hend : c.isEndOfFile with
  | true =>
      rw [if_pos rfl, List.singleton_append, diffLines, if_pos rfl]
      refine ⟨rfl, (if_pos hsome).trans ?_⟩
      simp [Chunk.toUpdateFileChunk, hend]
  | false =>
      rw [if_neg Bool.false_ne_true, List.nil_append rest, diffLines_of_endsChunk h]
      refine ⟨rfl, (if_pos hsome).trans ?_⟩
      simp [Chunk.toUpdateFileChunk, hend]

/-! ### The chunks of a file -/

/-- A chunk with its header. -/
theorem chunksFrom_header (isFirst : Bool) {header : ChunkHeader} (h : header ≠ .absent)
    (rest : List String) :
    let d := diffLines {} rest
    chunksFrom isFirst (header.render ++ rest) =
      (d.chunk header.changeContext ++ (chunksFrom false d.rest).1,
        (chunksFrom false d.rest).2) := by
  cases header with
  | absent => exact absurd rfl h
  | bare =>
      dsimp only [ChunkHeader.render]
      rw [List.singleton_append, chunksFrom]
      rw [show trimEnd "@@" = "@@" by decide]
      rfl
  | context line =>
      have htrim : trimEnd ("@@ " ++ line.text) = "@@ " ++ line.text := by
        rw [trimEnd_append, line.trimmed, if_neg line.nonempty]
      have hstar : startsWith ("@@ " ++ line.text) "*** " = false := by
        rw [startsWith, String.toList_append]
        rfl
      have hblank : (trim ("@@ " ++ line.text)).isEmpty = false := by
        refine Bool.eq_false_iff.mpr fun hempty => ?_
        have hat := trim_eq_empty_iff.mp (String.isEmpty_iff.mp hempty) '@' (by simp)
        exact absurd hat (by decide)
      have hbare : "@@ " ++ line.text ≠ "@@" := fun h => by
        have hlen := congrArg String.length h
        rw [String.length_append] at hlen
        exact absurd hlen (show 3 + _ ≠ 2 by omega)
      dsimp only [ChunkHeader.render]
      rw [List.singleton_append, chunksFrom]
      simp only [htrim, hstar, hblank, hbare, stripPrefix_append, Bool.false_and,
        Bool.false_eq_true, if_false]
      rfl

/-- The first chunk, without its header. -/
theorem chunksFrom_absent {line : DiffLine} (h : line.Visible) (rest : List String) :
    let d := diffLines {} (line.render :: rest)
    chunksFrom true (line.render :: rest) =
      (d.chunk none ++ (chunksFrom false d.rest).1, (chunksFrom false d.rest).2) := by
  have hmarked := line.marked_render
  have hstar := startsWith_trimEnd_false (startsWith_of_marked hmarked "*** " rfl)
  have hheader := startsWith_trimEnd_false (startsWith_of_marked hmarked "@@" rfl)
  have hcontext := startsWith_trimEnd_false (startsWith_of_marked hmarked "@@ " rfl)
  have hbare : trimEnd line.render ≠ "@@" := fun h => by
    rw [h] at hheader
    exact absurd hheader (by decide)
  -- the mark is not a blank, or it stands before a text that is not blank
  have hvisible : ((trim (trimEnd line.render)).isEmpty && !startsWith (trimEnd line.render) " " &&
      !startsWith (trimEnd line.render) "+" && !startsWith (trimEnd line.render) "-") = false := by
    cases line with
    | context line =>
        rw [DiffLine.render, trimEnd_append, if_neg h, startsWith_append]
        simp
    | added line =>
        have hplus : startsWith (trimEnd ("+" ++ line.text)) "+" = true := by
          rw [trimEnd_append]
          split
          · decide
          · exact startsWith_append ..
        rw [DiffLine.render, hplus]
        simp
    | removed line =>
        have hminus : startsWith (trimEnd ("-" ++ line.text)) "-" = true := by
          rw [trimEnd_append]
          split
          · decide
          · exact startsWith_append ..
        rw [DiffLine.render, hminus]
        simp
    | empty => exact h.elim
  dsimp only
  rw [chunksFrom]
  simp only [hstar, hvisible, hbare, stripPrefix_eq_none hcontext, Bool.false_and,
    Bool.false_eq_true, if_false, dif_pos]

/-- **A chunk is read** as it was written, up to the next one. -/
theorem chunksFrom_chunk (isFirst : Bool) (c : Chunk) {rest : List String} (h : EndsChunk rest)
    (habsent : c.header = .absent → isFirst = true ∧ ∃ line ∈ c.lines.head?, line.Visible) :
    chunksFrom isFirst (c.render ++ rest) =
      (c.toUpdateFileChunk :: (chunksFrom false rest).1, (chunksFrom false rest).2) := by
  obtain ⟨hrest, hchunk⟩ := diffLines_chunk c h
  by_cases hheader : c.header = .absent
  · obtain ⟨rfl, line, hline, hvisible⟩ := habsent hheader
    obtain ⟨lines, hlines⟩ := List.head?_eq_some_iff.mp hline
    have hnone : c.header.changeContext = none := by
      rw [hheader]
      rfl
    rw [hlines, List.map_cons, List.cons_append] at hrest hchunk
    rw [hnone] at hchunk
    rw [Chunk.render, hheader, hlines, ChunkHeader.render, List.nil_append, List.append_assoc,
      List.map_cons, List.cons_append, chunksFrom_absent hvisible, hrest, hchunk]
    rfl
  · rw [Chunk.render, List.append_assoc, List.append_assoc, chunksFrom_header isFirst hheader, hrest,
      hchunk]
    rfl

theorem chunksFrom_directive (isFirst : Bool) {l : String} (h : Directive l) (rest : List String) :
    chunksFrom isFirst (l :: rest) = ([], l :: rest) := by
  have hstop : (startsWith l "*** " && l != "*** End of File") = true := by
    rw [h.starts, bne_iff_ne.mpr h.ne_end]
    rfl
  rw [chunksFrom]
  simp only [h.trimmed, hstop, if_true]

theorem endsChunk_directive {l : String} (h : Directive l) (rest : List String) :
    EndsChunk (l :: rest) :=
  ⟨l, rest, rfl, h.ne_end, by rw [h.starts, Bool.true_or]⟩

/-- A chunk with a header ends the one before it. -/
theorem endsChunk_chunk {c : Chunk} (h : c.header ≠ .absent) (rest : List String) :
    EndsChunk (c.render ++ rest) := by
  rw [Chunk.render, List.append_assoc, List.append_assoc]
  cases hheader : c.header with
  | absent => exact absurd hheader h
  | bare => exact ⟨"@@", _, rfl, by decide, by decide⟩
  | context line =>
      have hstart : startsWith ("@@ " ++ line.text) "@@" = true := by
        rw [startsWith, String.toList_append]
        rfl
      refine ⟨"@@ " ++ line.text, _, rfl, fun hend => ?_, by rw [hstart, Bool.or_true]⟩
      rw [hend] at hstart
      exact absurd hstart (by decide)

theorem endsChunk_chunks {chunks : List Chunk} (headed : ∀ c ∈ chunks, c.header ≠ .absent)
    {l : String} (h : Directive l) (rest : List String) :
    EndsChunk (chunks.flatMap Chunk.render ++ l :: rest) := by
  cases chunks with
  | nil => exact endsChunk_directive h rest
  | cons c chunks =>
      rw [List.flatMap_cons, List.append_assoc]
      exact endsChunk_chunk (headed c List.mem_cons_self) _

/-- The chunks with a header, up to the next directive. -/
theorem chunksFrom_chunks {chunks : List Chunk} (headed : ∀ c ∈ chunks, c.header ≠ .absent)
    {l : String} (h : Directive l) (rest : List String) :
    chunksFrom false (chunks.flatMap Chunk.render ++ l :: rest) =
      (chunks.map Chunk.toUpdateFileChunk, l :: rest) := by
  induction chunks with
  | nil => exact chunksFrom_directive false h rest
  | cons c chunks ih =>
      obtain ⟨hc, hchunks⟩ := List.forall_mem_cons.mp headed
      rw [List.flatMap_cons, List.append_assoc,
        chunksFrom_chunk false c (endsChunk_chunks hchunks h rest) fun habsent => absurd habsent hc,
        ih hchunks]
      rfl

/-! ### The files of a patch -/

theorem addedContents_render (lines : List FileLine) {l : String} (h : Directive l)
    (rest : List String) :
    addedContents ((lines.map fun line => "+" ++ line.text) ++ l :: rest) =
      (text (lines.map FileLine.text), l :: rest) := by
  induction lines with
  | nil => exact if_pos h.starts
  | cons line lines ih =>
      have hstar : startsWith ("+" ++ line.text) "*** " = false :=
        startsWith_of_marked (DiffLine.added line).marked_render "*** " rfl
      rw [List.map_cons, List.cons_append, addedContents, if_neg (Bool.eq_false_iff.mp hstar), ih,
        stripPrefix_append]
      dsimp only
      rw [List.map_cons, text, text, List.flatMap_cons, String.ofList_append, String.ofList_append,
        String.ofList_toList]

theorem append_ne_of_startsWith {keyword l : String} (h : startsWith l keyword = false)
    (s : String) : keyword ++ s ≠ l := fun heq => by
  rw [← heq, startsWith_append] at h
  cases h

/-- A directive that names a path. -/
theorem directive_append {keyword : String} (hstart : startsWith keyword "*** " = true)
    (hend : startsWith "*** End of File" keyword = false) (path : PatchPath) :
    Directive (keyword ++ path.text) where
  trimmed := by rw [trimEnd_append, path.trimEnd, if_neg path.nonempty]
  starts := by
    rw [startsWith_iff] at hstart ⊢
    rw [String.toList_append]
    exact hstart.trans (List.prefix_append _ _)
  ne_end := append_ne_of_startsWith hend path.text

theorem Directive.trim {l : String} (h : Directive l) : trim l = l := by
  have hdrop : l.toList.dropWhile isWhitespace = l.toList := by
    obtain ⟨cs, hcs⟩ := startsWith_iff.mp h.starts
    rw [← hcs]
    rfl
  rw [Rust.trim, hdrop]
  exact h.trimmed

theorem FileChange.exists_directive (change : FileChange) :
    ∃ l ls, change.render = l :: ls ∧ Directive l := by
  cases change with
  | add path lines => exact ⟨_, _, rfl, directive_append (by decide) (by decide) path⟩
  | delete path => exact ⟨_, _, rfl, directive_append (by decide) (by decide) path⟩
  | update u => exact ⟨_, _, rfl, directive_append (by decide) (by decide) u.path⟩

/-- The first line of an update's chunks is no directive. -/
theorem FileUpdate.exists_first (u : FileUpdate) :
    ∃ l ls, u.first.render = l :: ls ∧ startsWith l "*** Move to: " = false := by
  rw [Chunk.render, List.append_assoc]
  cases hheader : u.first.header with
  | absent =>
      obtain ⟨line, hline, -⟩ := u.visible hheader
      obtain ⟨lines, hlines⟩ := List.head?_eq_some_iff.mp hline
      rw [hlines]
      exact ⟨_, _, rfl, startsWith_of_marked line.marked_render "*** Move to: " rfl⟩
  | bare => exact ⟨_, _, rfl, by decide⟩
  | context line =>
      refine ⟨_, _, rfl, ?_⟩
      rw [startsWith, String.toList_append]
      rfl

theorem moveTo_render (u : FileUpdate) (rest : List String) :
    moveTo ((u.moveTo.map fun path => "*** Move to: " ++ path.text).toList ++
        (u.first.render ++ rest)) =
      (u.moveTo.map PatchPath.text, u.first.render ++ rest) := by
  cases hmove : u.moveTo with
  | some path =>
      have htrim := (directive_append (by decide) (by decide) path :
        Directive ("*** Move to: " ++ path.text)).trimmed
      dsimp only [Option.map_some, Option.toList_some]
      rw [List.singleton_append, moveTo, htrim, stripPrefix_append]
      dsimp only
      rw [path.trimmed]
  | none =>
      obtain ⟨l, ls, hfirst, hl⟩ := u.exists_first
      rw [hfirst, Option.map_none, Option.toList_none, List.nil_append, List.cons_append, moveTo,
        stripPrefix_eq_none (startsWith_trimEnd_false hl)]
      rfl

theorem chunksFrom_render (u : FileUpdate) {l : String} (h : Directive l) (rest : List String) :
    chunksFrom true (u.first.render ++ (u.rest.flatMap Chunk.render ++ l :: rest)) =
      ((u.first :: u.rest).map Chunk.toUpdateFileChunk, l :: rest) := by
  rw [chunksFrom_chunk true u.first (endsChunk_chunks u.headed h rest) fun h => ⟨rfl, u.visible h⟩,
    chunksFrom_chunks u.headed h rest]
  rfl

/-- **A change is read** as it was written, up to the next directive. -/
theorem hunksFrom_change (change : FileChange) {l : String} (h : Directive l)
    (rest : List String) :
    hunksFrom (change.render ++ l :: rest) =
      (hunksFrom (l :: rest)).map (change.toPatchHunk :: ·) := by
  cases change with
  | add path lines =>
      have hd : Directive ("*** Add File: " ++ path.text) :=
        directive_append (by decide) (by decide) path
      have hend : "*** Add File: " ++ path.text ≠ "*** End Patch" :=
        append_ne_of_startsWith (by decide) path.text
      rw [FileChange.render, List.cons_append, hunksFrom]
      simp only [hd.trimmed, hd.trim, hend, stripPrefix_append, if_false,
        addedContents_render lines h rest, path.trimmed]
      cases hunksFrom (l :: rest) <;> rfl
  | delete path =>
      have hd : Directive ("*** Delete File: " ++ path.text) :=
        directive_append (by decide) (by decide) path
      have hend : "*** Delete File: " ++ path.text ≠ "*** End Patch" :=
        append_ne_of_startsWith (by decide) path.text
      have hadd : stripPrefix ("*** Delete File: " ++ path.text) "*** Add File: " = none := by
        refine stripPrefix_eq_none ?_
        rw [startsWith, String.toList_append]
        rfl
      rw [FileChange.render, List.singleton_append, hunksFrom]
      simp only [hd.trimmed, hd.trim, hend, hadd, stripPrefix_append, if_false, path.trimmed]
      cases hunksFrom (l :: rest) <;> rfl
  | update u =>
      have hd : Directive ("*** Update File: " ++ u.path.text) :=
        directive_append (by decide) (by decide) u.path
      have hend : "*** Update File: " ++ u.path.text ≠ "*** End Patch" :=
        append_ne_of_startsWith (by decide) u.path.text
      have hadd : stripPrefix ("*** Update File: " ++ u.path.text) "*** Add File: " = none := by
        refine stripPrefix_eq_none ?_
        rw [startsWith, String.toList_append]
        rfl
      have hdelete :
          stripPrefix ("*** Update File: " ++ u.path.text) "*** Delete File: " = none := by
        refine stripPrefix_eq_none ?_
        rw [startsWith, String.toList_append]
        rfl
      rw [FileChange.render, List.cons_append, List.append_assoc, List.append_assoc, hunksFrom]
      simp only [hd.trimmed, hd.trim, hend, hadd, hdelete, stripPrefix_append, if_false,
        moveTo_render u, chunksFrom_render u h rest, u.path.trimmed]
      cases hunksFrom (l :: rest) <;> rfl

theorem hunksFrom_render (changes : List FileChange) :
    hunksFrom (changes.flatMap FileChange.render ++ ["*** End Patch"]) =
      .ok (changes.map FileChange.toPatchHunk) := by
  induction changes with
  | nil =>
      rw [List.flatMap_nil, List.nil_append, hunksFrom]
      exact if_pos (by decide)
  | cons change changes ih =>
      obtain ⟨l, ls, hnext, hd⟩ : ∃ l ls,
          changes.flatMap FileChange.render ++ ["*** End Patch"] = l :: ls ∧ Directive l := by
        cases changes with
        | nil => exact ⟨_, _, rfl, by decide, by decide, by decide⟩
        | cons change' changes =>
            obtain ⟨l, ls, hrender, hd⟩ := change'.exists_directive
            rw [List.flatMap_cons, hrender]
            exact ⟨_, _, rfl, hd⟩
      rw [List.flatMap_cons, List.append_assoc, hnext, hunksFrom_change change hd, ← hnext, ih]
      rfl

/-! ### Every text -/

/-- What the parser says of a text that it does not accept. -/
inductive PatchError : String → Prop where
  | noBegin : PatchError "Patch must contain *** Begin Patch"
  | noDirectives : PatchError "No valid patch directives found"
  | noChanges (path : String) : PatchError ("Update file hunk for '" ++ path ++ "' has no changes")

theorem patchError_of_hunksFrom {ls : List String} {e : String} (h : hunksFrom ls = .error e) :
    PatchError e := by
  fun_induction hunksFrom ls with
  | case1 => cases h
  | case2 => cases h
  | case3 l rest line hend path hpath added hle ih =>
      cases hnext : hunksFrom added.2 with
      | error e' =>
          rw [hnext] at h
          cases h
          exact ih hnext
      | ok hunks =>
          rw [hnext] at h
          cases h
  | case4 l rest line hend path hpath hadd ih =>
      cases hnext : hunksFrom rest with
      | error e' =>
          rw [hnext] at h
          cases h
          exact ih hnext
      | ok hunks =>
          rw [hnext] at h
          cases h
  | case5 l rest line hend path hpath moved updated hle hadd hdelete ih =>
      by_cases hchunks : updated.1 ≠ []
      · rw [ensure, if_pos hchunks] at h
        cases hnext : hunksFrom updated.2 with
        | error e' =>
            rw [hnext] at h
            cases h
            exact ih hnext
        | ok hunks =>
            rw [hnext] at h
            cases h
      · rw [ensure, if_neg hchunks] at h
        cases h
        exact .noChanges _
  | case6 l rest line hend hadd hdelete hupdate ih => exact ih h

/-- On every text the parser returns, with hunks or with an error. -/
theorem parseApplyPatch_returns (input : String) :
    (∃ hunks, parseApplyPatch input = .ok hunks ∧ hunks ≠ []) ∨
      ∃ e, parseApplyPatch input = .error e ∧ PatchError e := by
  rw [parseApplyPatch]
  split
  · exact .inr ⟨_, rfl, .noBegin⟩
  · rename_i rest _
    cases hhunks : hunksFrom rest with
    | error e => exact .inr ⟨e, rfl, patchError_of_hunksFrom hhunks⟩
    | ok hunks =>
        by_cases hne : hunks ≠ []
        · refine .inl ⟨hunks, ?_, hne⟩
          show (do ensure (hunks ≠ []) _; return hunks) = _
          rw [ensure, if_pos hne]
          rfl
        · refine .inr ⟨_, ?_, .noDirectives⟩
          show (do ensure (hunks ≠ []) _; return hunks) = _
          rw [ensure, if_neg hne]
          rfl

/-- **The parser inverts the format.**  It gives back the changes that a patch was written for, and
on every text it returns. -/
theorem parse_apply_patch_render (changes : List FileChange) (h : changes ≠ []) :
    parseApplyPatch (renderPatch changes) = .ok (changes.map FileChange.toPatchHunk) ∧
      ∀ input, (∃ hunks, parseApplyPatch input = .ok hunks ∧ hunks ≠ []) ∨
        ∃ e, parseApplyPatch input = .error e ∧ PatchError e := by
  refine ⟨?_, parseApplyPatch_returns⟩
  rw [parseApplyPatch, lines_renderPatch, List.dropWhile_cons_of_neg (by decide)]
  dsimp only
  rw [hunksFrom_render]
  show (do ensure (changes.map FileChange.toPatchHunk ≠ []) _; return _) = _
  rw [ensure, if_pos (mt List.map_eq_nil_iff.mp h)]
  rfl

/-- A file whose lines look like directives, and an update whose first chunk has no header. -/
def lookalikes : List FileChange :=
  [.add ⟨"a b.txt", by decide, by decide, by decide⟩
      [⟨"*** End Patch", by decide, by decide⟩, ⟨"", by decide, by decide⟩],
    .update
      { path := ⟨"c.txt", by decide, by decide, by decide⟩
        moveTo := some ⟨"d.txt", by decide, by decide, by decide⟩
        first :=
          { header := .absent
            lines := [.added ⟨"@@", by decide, by decide⟩, .empty]
            isEndOfFile := false
            nonempty := .inl (by decide) }
        visible := fun _ => ⟨_, rfl, trivial⟩
        rest :=
          [{ header := .context ⟨"fn main() \x7b", by decide, by decide, by decide⟩
             lines := [.removed ⟨" *** End of File", by decide, by decide⟩]
             isEndOfFile := true
             nonempty := .inl (by decide) }]
        headed := fun c hc => by
          cases List.mem_singleton.mp hc
          exact ChunkHeader.noConfusion }]

theorem parse_apply_patch_render_lookalikes :
    parseApplyPatch (renderPatch lookalikes) =
      .ok [.addFile "a b.txt" "*** End Patch\n\n",
        .updateFile "c.txt" (some "d.txt")
          [⟨none, [""], ["@@", ""], false⟩,
            ⟨some "fn main() \x7b", [" *** End of File"], [], true⟩]] :=
  (parse_apply_patch_render lookalikes (by decide)).1

end Jcode.Tool
