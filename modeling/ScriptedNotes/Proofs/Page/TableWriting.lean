import ScriptedNotes.Page.Table
import ScriptedNotes.Proofs.Text.Trimming

/-!
Tables as they are written. A row is written with a pipe in front and one behind each cell, and the
row of delimiters stands second. Whatever the lengths of its rows, a written table is read back and
laid out row by row and cell by cell, each cell with the class of its column
(`written_table_reads_back`).
-/

namespace ScriptedNotes.Page

open Text

/-- The shortest delimiter that asks for an alignment. -/
def Alignment.delimiter : Alignment → List Char
  | .left => ['-', '-', '-']
  | .center => [':', '-', ':']
  | .right => ['-', '-', ':']

namespace Table

variable {s t : List Char} {row : List (List Char)} {ls : List (List Char)}

/-- A row as it is written. -/
def writeRow (row : List (List Char)) : List Char :=
  '|' :: row.flatMap (· ++ ['|'])

/-- A table as it is written. -/
def write (t : Table) : List Char :=
  ['\n'].intercalate
    (writeRow t.headers :: writeRow (t.alignments.map Alignment.delimiter) :: t.rows.map writeRow)

/-- A cell that is read as it is written. -/
structure Tidy (cell : List Char) : Prop where
  trimmed : trim cell = cell
  pipe : '|' ∉ cell
  feed : '\n' ∉ cell

instance : DecidablePred Tidy := fun cell =>
  decidable_of_iff (trim cell = cell ∧ '|' ∉ cell ∧ '\n' ∉ cell)
    ⟨fun ⟨htrimmed, hpipe, hfeed⟩ => ⟨htrimmed, hpipe, hfeed⟩,
      fun h => ⟨h.trimmed, h.pipe, h.feed⟩⟩

/-- A cell as it is laid out. -/
def cellElement (tag : String) (a : Alignment) (cell : List Char) : List Char :=
  ("<" ++ tag ++ " class=\"" ++ a.className ++ "\">").toList ++ cell ++
    ("</" ++ tag ++ ">").toList

/-- A row as it is laid out, with an alignment for every column. -/
def rowElement (tag : String) (alignment : Nat → Alignment) (row : List (List Char)) : List Char :=
  "<tr>".toList ++
    (row.mapIdx fun column cell => cellElement tag (alignment column) cell).flatten ++
    "</tr>".toList

/-- A table as it is laid out, with an alignment for every column: a row of headers and the rows of
the body. -/
def tableElement (alignment : Nat → Alignment) (headers : List (List Char))
    (rows : List (List (List Char))) : List Char :=
  "<div class=\"table-wrapper\"><table><thead>".toList ++ rowElement "th" alignment headers ++
    "</thead><tbody>".toList ++ (rows.map (rowElement "td" alignment)).flatten ++
    "</tbody></table></div>".toList

/-! ### Rows -/

lemma rowHtml_eq (t : Table) (tag : String) (row : List (List Char)) :
    t.rowHtml tag row =
      (row.mapIdx fun column cell => cellElement tag (t.alignment column) cell).flatten := by
  unfold rowHtml
  rw [List.flatMap_def, List.mapIdx_eq_zipIdx_map]
  rfl

/-- **A table is laid out by its own alignments.** -/
theorem html_eq (t : Table) : t.html = tableElement t.alignment t.headers t.rows := by
  unfold html tableElement rowElement
  rw [rowHtml_eq, List.flatMap_def]
  simp only [rowHtml_eq]
  have hopening : "<div class=\"table-wrapper\"><table><thead><tr>".toList =
      "<div class=\"table-wrapper\"><table><thead>".toList ++ "<tr>".toList := by decide
  have hmiddle : "</tr></thead><tbody>".toList = "</tr>".toList ++ "</thead><tbody>".toList := by
    decide
  rw [hopening, hmiddle]
  simp only [List.append_assoc]

/-- The pieces of a row between blanks are these and the cells. -/
lemma splitOn_writeRow {lead trail : List Char} (hlead : '|' ∉ lead) (htrail : '|' ∉ trail)
    (hrow : ∀ cell ∈ row, '|' ∉ cell) :
    (lead ++ writeRow row ++ trail).splitOn '|' = lead :: (row ++ [trail]) := by
  have hcells : (row.flatMap (· ++ ['|']) ++ trail).splitOn '|' = row ++ [trail] := by
    induction row with
    | nil => exact List.splitOn_eq_singleton htrail
    | cons cell row ih =>
      obtain ⟨hcell, hrow⟩ := List.forall_mem_cons.1 hrow
      rw [List.flatMap_cons, List.append_assoc, List.append_assoc, List.singleton_append,
        List.splitOn_append_cons_self_of_not_mem hcell, ih hrow, List.cons_append]
  unfold writeRow
  rw [List.append_assoc, List.cons_append, List.splitOn_append_cons_self_of_not_mem hlead, hcells]

lemma cells_writeRow (h : ∀ cell ∈ row, Tidy cell) : cells (writeRow row) = row := by
  have hnone : '|' ∉ ([] : List Char) := List.not_mem_nil
  have hsplit := splitOn_writeRow hnone hnone fun cell hcell => (h cell hcell).pipe
  rw [List.nil_append, List.append_nil] at hsplit
  unfold cells
  rw [hsplit, List.drop_one, List.tail_cons, List.dropLast_concat]
  exact (List.map_congr_left fun cell hcell => (h cell hcell).trimmed).trans (List.map_id' row)

lemma feed_not_mem_writeRow (h : ∀ cell ∈ row, '\n' ∉ cell) : '\n' ∉ writeRow row := by
  intro hmem
  rcases List.mem_cons.1 hmem with he | hmem
  · exact absurd he (by decide)
  · obtain ⟨cell, hcell, hmem⟩ := List.mem_flatMap.1 hmem
    rcases List.mem_append.1 hmem with hmem | hmem
    · exact h cell hcell hmem
    · exact absurd (List.mem_singleton.1 hmem) (by decide)

/-! ### Pipes at either end -/

/-- A text between pipes. -/
structure Piped (s : List Char) : Prop where
  head : s.head? = some '|'
  last : s.getLast? = some '|'

lemma piped_writeRow (row : List (List Char)) : Piped (writeRow row) where
  head := rfl
  last := by
    induction row using List.reverseRecOn with
    | nil => rfl
    | append_singleton row cell _ =>
      unfold writeRow
      rw [List.flatMap_append, List.flatMap_singleton, ← List.append_assoc, ← List.cons_append,
        List.getLast?_concat]

lemma Piped.append (hs : Piped s) (ht : Piped t) (inner : List Char) : Piped (s ++ inner ++ t) where
  head := by rw [List.append_assoc, List.head?_append, hs.head]; rfl
  last := by rw [List.getLast?_append, ht.last]; rfl

lemma Piped.intercalate (hne : ls ≠ []) (h : ∀ l ∈ ls, Piped l) (sep : List Char) :
    Piped (sep.intercalate ls) := by
  induction ls with
  | nil => exact absurd rfl hne
  | cons l ls ih =>
    obtain ⟨hl, hls⟩ := List.forall_mem_cons.1 h
    cases ls with
    | nil => rwa [List.intercalate_singleton]
    | cons m ls =>
      rw [List.intercalate_cons_cons]
      exact hl.append (ih (List.cons_ne_nil m ls) hls) sep

lemma Piped.dropWhile {p : Char → Bool} (hp : p '|' = false) (h : Piped s) :
    s.dropWhile p = s ∧ (s.reverse.dropWhile p).reverse = s := by
  obtain ⟨tail, rfl⟩ := List.head?_eq_some_iff.1 h.head
  obtain ⟨front, hfront⟩ := List.getLast?_eq_some_iff.1 h.last
  refine ⟨List.dropWhile_cons_of_neg (by simp [hp]), ?_⟩
  rw [hfront, List.reverse_concat, List.dropWhile_cons_of_neg (by simp [hp]), ← List.reverse_concat,
    List.reverse_reverse]

lemma Piped.trim_eq (h : Piped s) : trim s = s := by
  obtain ⟨hstart, hend⟩ := h.dropWhile (p := isBlank) (by decide)
  unfold trim trimStart trimEnd
  rw [hstart, hend]

/-! ### Delimiters -/

lemma ofDelimiter_delimiter (a : Alignment) : Alignment.ofDelimiter a.delimiter = a := by
  cases a <;> decide

lemma tidy_delimiter (a : Alignment) : Tidy a.delimiter := by
  cases a <;> decide

lemma delimiter_plain (a : Alignment) :
    allBlank a.delimiter = false ∧ ∀ c ∈ a.delimiter, c = '-' ∨ c = ':' := by
  constructor
  · cases a <;> decide
  · cases a <;> simp [Alignment.delimiter]

lemma isDelimiterRow_writeRow {as : List Alignment} (hne : as ≠ []) :
    isDelimiterRow (writeRow (as.map Alignment.delimiter)) = true := by
  have hpiped := piped_writeRow (as.map Alignment.delimiter)
  obtain ⟨hstart, hend⟩ := hpiped.dropWhile (p := isSpace) (by decide)
  have hlength : 2 ≤ (writeRow (as.map Alignment.delimiter)).length := by
    obtain ⟨a, as, rfl⟩ := List.exists_cons_of_ne_nil hne
    simp only [writeRow, List.map_cons, List.flatMap_cons, List.length_cons, List.length_append,
      List.length_nil]
    omega
  have hall : ∀ c ∈ writeRow (as.map Alignment.delimiter), c = '|' ∨ c = '-' ∨ c = ':' := by
    intro c hc
    rcases List.mem_cons.1 hc with rfl | hc
    · exact .inl rfl
    · obtain ⟨cell, hcell, hc⟩ := List.mem_flatMap.1 hc
      obtain ⟨a, -, rfl⟩ := List.mem_map.1 hcell
      rcases List.mem_append.1 hc with hc | hc
      · exact .inr ((delimiter_plain a).2 c hc)
      · exact .inl (List.mem_singleton.1 hc)
  unfold isDelimiterRow
  dsimp only
  rw [hstart, hend, hpiped.head, hpiped.last]
  simp only [Bool.and_eq_true, decide_true, true_and, hlength, List.all_eq_true, Bool.or_eq_true,
    beq_iff_eq]
  intro c hc
  rcases hall c hc with rfl | rfl | rfl <;> decide

/-- The alignments that a row asks for are those of its cells that are not blank. -/
lemma alignmentsOf_writeRow {lead trail : List Char} (hlead : ∀ c ∈ lead, isSpace c = true)
    (htrail : ∀ c ∈ trail, isSpace c = true) (hrow : ∀ cell ∈ row, '|' ∉ cell) :
    alignmentsOf (lead ++ writeRow row ++ trail) =
      (row.filter fun cell => !allBlank cell).map .ofDelimiter := by
  have hpipe : isSpace '|' = false := by decide
  have hblank : ∀ s : List Char, (∀ c ∈ s, isSpace c = true) → allBlank s = true := fun s hs =>
    List.all_eq_true.2 fun c hc => isBlank_of_isSpace (hs c hc)
  have hnot : ∀ s : List Char, (∀ c ∈ s, isSpace c = true) → '|' ∉ s := fun s hs hmem => by
    rw [hs _ hmem] at hpipe
    cases hpipe
  unfold alignmentsOf
  rw [splitOn_writeRow (hnot lead hlead) (hnot trail htrail) hrow,
    List.filter_cons_of_neg (by simp [hblank lead hlead]), List.filter_append,
    List.filter_cons_of_neg (by simp [hblank trail htrail]), List.filter_nil, List.append_nil]

lemma alignmentsOf_delimiters (as : List Alignment) :
    alignmentsOf (writeRow (as.map Alignment.delimiter)) = as := by
  have hpipe : ∀ cell ∈ as.map Alignment.delimiter, '|' ∉ cell :=
    List.forall_mem_map.2 fun a _ => (tidy_delimiter a).pipe
  have hnone : ∀ c ∈ ([] : List Char), isSpace c = true := List.forall_mem_nil _
  have hof := alignmentsOf_writeRow hnone hnone hpipe
  rw [List.nil_append, List.append_nil] at hof
  rw [hof, List.filter_eq_self.2, List.map_map]
  · exact (List.map_congr_left fun a _ => ofDelimiter_delimiter a).trans (List.map_id' as)
  · intro cell hcell
    obtain ⟨a, -, rfl⟩ := List.mem_map.1 hcell
    rw [(delimiter_plain a).1]
    rfl

/-! ### Tables -/

lemma pieces_write {t : Table} (h : ∀ row ∈ t.headers :: t.rows, ∀ cell ∈ row, Tidy cell) :
    pieces (trim t.write) =
      writeRow t.headers :: writeRow (t.alignments.map Alignment.delimiter) ::
        t.rows.map writeRow := by
  have hlines : ∀ l ∈ writeRow t.headers :: writeRow (t.alignments.map Alignment.delimiter) ::
      t.rows.map writeRow, '\n' ∉ l ∧ Piped l := by
    have hfeed : ∀ cell ∈ t.alignments.map Alignment.delimiter, '\n' ∉ cell :=
      List.forall_mem_map.2 fun a _ => (tidy_delimiter a).feed
    intro l hl
    rcases List.mem_cons.1 hl with rfl | hl
    · exact ⟨feed_not_mem_writeRow fun cell hcell => (h _ List.mem_cons_self cell hcell).feed,
        piped_writeRow _⟩
    · rcases List.mem_cons.1 hl with rfl | hl
      · exact ⟨feed_not_mem_writeRow hfeed, piped_writeRow _⟩
      · obtain ⟨row, hrow, rfl⟩ := List.mem_map.1 hl
        exact ⟨feed_not_mem_writeRow fun cell hcell =>
          (h row (List.mem_cons_of_mem _ hrow) cell hcell).feed, piped_writeRow _⟩
  have hpiped : Piped t.write := .intercalate (List.cons_ne_nil _ _) (fun l hl => (hlines l hl).2) _
  rw [hpiped.trim_eq]
  exact List.splitOn_intercalate '\n' (fun l hl => (hlines l hl).1) (List.cons_ne_nil _ _)

/-- **A written table is read back and laid out as it is**, every cell of the header and of the body
in its place, with the class of its column or left when the column has no alignment. -/
theorem written_table_reads_back (t : Table) (halignments : t.alignments ≠ [])
    (hcells : ∀ row ∈ t.headers :: t.rows, ∀ cell ∈ row, Tidy cell) :
    parse? t.write = some t ∧
      renderTable t.write =
        tableElement (fun column => t.alignments[column]?.getD .left) t.headers t.rows := by
  have hrows : (t.rows.map writeRow).map cells = t.rows := by
    rw [List.map_map]
    refine (List.map_congr_left fun row hrow => ?_).trans (List.map_id' t.rows)
    exact cells_writeRow (hcells row (List.mem_cons_of_mem _ hrow))
  have hparse : parse? t.write = some t := by
    unfold parse?
    rw [pieces_write hcells]
    dsimp only
    rw [if_pos (isDelimiterRow_writeRow halignments), alignmentsOf_delimiters, hrows,
      cells_writeRow (hcells t.headers List.mem_cons_self)]
  refine ⟨hparse, ?_⟩
  unfold renderTable
  rw [hparse]
  exact t.html_eq

/-- A table with rows of all lengths, one of them without a cell, and an empty cell. -/
def raggedTable : Table where
  headers := ["step".toList, "due by".toList]
  alignments := [.center, .left, .right]
  rows := [["sow".toList], [], [[], "*May*".toList, "3".toList, "late".toList]]

theorem written_table_reads_back_ragged :
    raggedTable.alignments ≠ [] ∧
      (∀ row ∈ raggedTable.headers :: raggedTable.rows, ∀ cell ∈ row, Tidy cell) ∧
      parse? raggedTable.write = some raggedTable ∧
      renderTable raggedTable.write =
        tableElement (fun column => raggedTable.alignments[column]?.getD .left)
          raggedTable.headers raggedTable.rows := by
  have hcells : ∀ row ∈ raggedTable.headers :: raggedTable.rows, ∀ cell ∈ row, Tidy cell := by
    decide
  exact ⟨by decide, hcells, written_table_reads_back raggedTable (by decide) hcells⟩

end Table

end ScriptedNotes.Page
