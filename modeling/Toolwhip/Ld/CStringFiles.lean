import Toolwhip.Ld.CStringLines

/-! # A whole order file

The first loop of `cstring_order` measures only the lines that end with a newline; the second
loop takes the rest of the file for a line as well. -/

namespace Toolwhip.Ld
open List
set_option autoImplicit false
variable {bytes : List UInt8}

/-- The lines that end with a newline, and the rest of the file. -/
def splitLines : List UInt8 → List (List UInt8) × List UInt8
  | [] => ([], [])
  | c :: rest =>
    if c = newline then ([] :: (splitLines rest).1, (splitLines rest).2)
    else
      match (splitLines rest).1 with
      | [] => ([], c :: (splitLines rest).2)
      | line :: lines => ((c :: line) :: lines, (splitLines rest).2)

def joinLines (lines : List (List UInt8)) (rest : List UInt8) : List UInt8 :=
  lines.flatMap (· ++ [0]) ++ rest

/-- The measure that the line buffer is allocated with, `length` characters of the first line
having been counted already. -/
def maxLineLength : Nat → Nat → List (List UInt8) → Nat
  | _, longest, [] => longest
  | length, longest, line :: lines => maxLineLength 1 (max longest (length + line.length)) lines

theorem joinLines_cons (line : List UInt8) (lines : List (List UInt8)) (rest : List UInt8) :
    joinLines (line :: lines) rest = line ++ 0 :: joinLines lines rest := by
  simp [joinLines]

theorem splitLines_noNul (h : 0 ∉ bytes) :
    (∀ line ∈ (splitLines bytes).1, 0 ∉ line) ∧ 0 ∉ (splitLines bytes).2 := by
  induction bytes with
  | nil => exact ⟨nofun, nofun⟩
  | cons c rest ih =>
    rw [mem_cons, not_or] at h
    obtain ⟨hlines, hrest⟩ := ih h.2
    have hc : ∀ line : List UInt8, 0 ∉ line → 0 ∉ c :: line := by
      intro line hline hmem
      rcases List.mem_cons.mp hmem with hmem | hmem
      · exact h.1 hmem
      · exact hline hmem
    unfold splitLines
    split
    · refine ⟨?_, hrest⟩
      intro line hmem
      rcases List.mem_cons.mp hmem with rfl | hmem
      · exact not_mem_nil
      · exact hlines line hmem
    split
    · exact ⟨nofun, hc _ hrest⟩
    rename_i first others heq
    rw [heq] at hlines
    refine ⟨?_, hrest⟩
    intro line hmem
    rcases List.mem_cons.mp hmem with rfl | hmem
    · exact hc first (hlines first mem_cons_self)
    · exact hlines line (mem_cons_of_mem _ hmem)

theorem scanOrder_eq (h : 0 ∉ bytes) (line_number line_length longest : Nat) :
    scanOrder line_number line_length longest bytes =
      .ok (joinLines (splitLines bytes).1 (splitLines bytes).2,
        line_number + (splitLines bytes).1.length,
        maxLineLength line_length longest (splitLines bytes).1) := by
  induction bytes generalizing line_number line_length longest with
  | nil => rfl
  | cons c rest ih =>
    rw [mem_cons, not_or] at h
    have hc : c ≠ 0 := fun heq => h.1 heq.symm
    rw [scanOrder, if_neg hc, splitLines]
    by_cases hnewline : c = newline
    · rw [if_pos hnewline, if_pos hnewline, ih h.2]
      rw [Nat.add_assoc, Nat.add_comm 1]
      rfl
    rw [if_neg hnewline, if_neg hnewline, ih h.2]
    cases hlines : (splitLines rest).1 with
    | nil => rfl
    | cons line lines =>
      simp only [maxLineLength, length_cons]
      have hsame : line_length + 1 + line.length = line_length + (line.length + 1) := by omega
      rw [hsame]
      rfl

theorem le_maxLineLength (length longest : Nat) (lines : List (List UInt8)) :
    longest ≤ maxLineLength length longest lines := by
  induction lines generalizing length longest with
  | nil => exact Nat.le_refl _
  | cons line lines ih => exact (Nat.le_max_left _ _).trans (ih _ _)

theorem length_lt_maxLineLength {lines : List (List UInt8)} {line : List UInt8}
    (h : line ∈ lines) (longest : Nat) : line.length < maxLineLength 1 longest lines := by
  induction lines generalizing longest with
  | nil => cases h
  | cons first lines ih =>
    rw [maxLineLength]
    rcases List.mem_cons.mp h with rfl | h
    · have hle := le_maxLineLength 1 (max longest (1 + line.length)) lines
      omega
    · exact ih h _

section Loop
variable {opts : OrderOptions} {items : List (List UInt8)} {data : CStringData}
  {lines limit i line_number : Nat}
variable {line tail : List UInt8}

theorem orderLoop_skip (pre more : List UInt8) :
    orderLoop opts lines limit pre.length i line_number (pre ++ more) data =
      orderLoop opts lines limit 0 (i + pre.length) line_number more data := by
  induction pre generalizing i with
  | nil => rfl
  | cons c pre ih =>
    rw [length_cons, cons_append, orderLoop, ih]
    congr 1
    omega

theorem orderLoop_end {skip : Nat} {rest : List UInt8} (h : rest.length ≤ skip) :
    orderLoop opts lines limit skip i line_number rest data = .ok ([], data) := by
  induction rest generalizing skip i with
  | nil => cases skip <;> rfl
  | cons c rest ih =>
    cases skip with
    | zero => cases h
    | succ skip => exact ih (Nat.le_of_succ_le_succ h)

def orderTrace (entries : List CStringOrderLine) : Trace :=
  entries.map fun entry => (entry.cstring, entry.output_offset)

theorem not_mem_lineString (line : List UInt8) : (0 : UInt8) ∉ lineString line := by
  intro hmem
  have := mem_takeWhile_imp hmem
  simp at this

theorem orderLoop_line (hne : line ++ tail ≠ []) (hline : 0 ∉ line)
    (htail : EndsLine tail) (harray : ¬ (opts.dead_strip = true ∧ lines < line_number)) :
    ∃ r, LineResult limit 0 (unescape 0 line) (i + line.length) [] r ∧
      orderLoop opts lines limit 0 i line_number (line ++ tail) data = do
        let cursor ← r
        let (output_offset, data) ← lookup_cstring opts.merge (bufferString cursor) data
        let (others, data) ← orderLoop opts lines limit (cursor.index - i) (i + 1)
          (line_number + 1) (line ++ tail).tail data
        return ({ character_index := i, output_offset := output_offset,
                  cstring := bufferString cursor } :: others, data) := by
  have hresult := @getCString_result limit line_number line tail hline htail 0 (Nat.zero_le _)
    { index := i } (Nat.zero_le _)
  refine ⟨_, hresult, ?_⟩
  cases hall : line ++ tail with
  | nil => exact absurd hall hne
  | cons c rest =>
    rw [orderLoop, if_neg harray]
    rfl

theorem getCString_line (hline : 0 ∉ line) (htail : EndsLine tail)
    (hend : ¬ EndsInBackslash line) (hroom : (unescape 0 line).1.length < limit) :
    ∃ cursor, getCString limit line_number 0 (line ++ tail) { index := i } = .ok cursor ∧
      cursor.index = i + line.length ∧ bufferString cursor = lineString line := by
  have hresult := @getCString_result limit line_number line tail hline htail 0 (Nat.zero_le _)
    { index := i } (Nat.zero_le _)
  generalize getCString limit line_number 0 (line ++ tail) { index := i } = r at hresult
  cases hresult with
  | entered cursor _ _ hindex hbuffer =>
    refine ⟨cursor, rfl, hindex, ?_⟩
    unfold bufferString lineString
    rw [hbuffer, nil_append]
  | stopped e hstop _ => exact absurd hstop hend
  | overflows hover =>
    rw [length_nil] at hover
    split at hover <;> omega

theorem orderLoop_enters {line : List UInt8} (h : HoldsStrings opts.merge items data)
    (hline : 0 ∉ line) (harray : ¬ (opts.dead_strip = true ∧ lines < line_number))
    (hend : ¬ EndsInBackslash line) (hroom : (unescape 0 line).1.length < limit) :
    ∃ entry data', entry.character_index = i ∧ entry.cstring = lineString line ∧
      Entered opts.merge items [lineString line] (orderTrace [entry]) data' ∧
      (∀ more, orderLoop opts lines limit 0 i line_number (line ++ 0 :: more) data =
        (orderLoop opts lines limit 0 (i + line.length + 1) (line_number + 1) more data').map
          fun r => (entry :: r.1, r.2)) ∧
      (line ≠ [] → orderLoop opts lines limit 0 i line_number line data = .ok ([entry], data')) := by
  obtain ⟨offset, data', hlookup, hentered⟩ := Entered.lookup h (not_mem_lineString line)
  have hok : ∀ tail, EndsLine tail → line ++ tail ≠ [] →
      orderLoop opts lines limit 0 i line_number (line ++ tail) data =
        (orderLoop opts lines limit line.length (i + 1) (line_number + 1) (line ++ tail).tail
          data').map fun r => ({ character_index := i, output_offset := offset,
                                 cstring := lineString line } :: r.1, r.2) := by
    intro tail htail hne
    obtain ⟨cursor, hcursor, hindex, hstring⟩ := @getCString_line limit i line_number line tail
      hline htail hend hroom
    have hskip : cursor.index - i = line.length := by
      omega
    cases hall : line ++ tail with
    | nil => exact absurd hall hne
    | cons c rest =>
      rw [hall] at hcursor
      rw [orderLoop, if_neg harray]
      dsimp only [bind, Except.bind, pure, Except.pure]
      rw [hcursor]
      dsimp only
      rw [hstring, hlookup, hskip]
      cases orderLoop opts lines limit line.length (i + 1) (line_number + 1) rest data' <;> rfl
  refine ⟨{ character_index := i, output_offset := offset, cstring := lineString line }, data', rfl,
    rfl, hentered, ?_, ?_⟩
  · intro more
    rw [hok (0 :: more) (endsLine_zero more) (by simp)]
    have hsplit : (line ++ 0 :: more).tail = (line ++ [0]).tail ++ more := by
      cases line <;> simp
    have hlen : (line ++ [(0 : UInt8)]).tail.length = line.length := by simp
    have hskip := @orderLoop_skip opts data' lines limit (i + 1) (line_number + 1)
      (line ++ [0]).tail more
    rw [hlen] at hskip
    have hindex : i + 1 + line.length = i + line.length + 1 := by omega
    rw [hsplit, hskip, hindex]
  · intro hne
    have hwhole := hok [] endsLine_nil (by simpa using hne)
    rw [append_nil] at hwhole
    rw [hwhole, orderLoop_end (by rw [length_tail]; omega)]
    rfl

theorem orderLoop_stops (hne : line ++ tail ≠ []) (hline : 0 ∉ line)
    (htail : EndsLine tail) (harray : ¬ (opts.dead_strip = true ∧ lines < line_number))
    (hend : EndsInBackslash line) (hroom : (unescape 0 line).1.length ≤ limit) :
    ∃ e, orderLoop opts lines limit 0 i line_number (line ++ tail) data = .error (.fatal e) := by
  obtain ⟨r, hr, hloop⟩ := @orderLoop_line opts data lines limit i line_number line tail hne hline
    htail harray
  rw [hloop]
  cases hr with
  | entered cursor hentered _ _ _ =>
    rw [hend] at hentered
    cases hentered
  | stopped e _ _ => exact ⟨e, rfl⟩
  | overflows hover =>
    rw [hend] at hover
    simp only [Bool.false_eq_true, if_false] at hover
    omega

theorem orderLoop_overflows (hne : line ++ tail ≠ []) (hline : 0 ∉ line) (htail : EndsLine tail)
    (hover : limit < (unescape 0 line).1.length + (if (unescape 0 line).2 then 1 else 0)) :
    orderLoop opts lines limit 0 i line_number (line ++ tail) data = .error .outOfBounds := by
  by_cases harray : opts.dead_strip = true ∧ lines < line_number
  · cases hall : line ++ tail with
    | nil => exact absurd hall hne
    | cons c rest =>
      rw [orderLoop, if_pos harray]
      rfl
  obtain ⟨r, hr, hloop⟩ := @orderLoop_line opts data lines limit i line_number line tail hne
    hline htail harray
  rw [hloop]
  cases hr with
  | entered cursor hend hroom _ _ =>
    rw [if_pos hend] at hover
    omega
  | stopped e hend hroom =>
    rw [hend] at hover
    simp only [Bool.false_eq_true, if_false] at hover
    omega
  | overflows _ => rfl

theorem orderLoop_array {bytes : List UInt8} (hne : bytes ≠ []) (hdead : opts.dead_strip = true)
    (harray : lines < line_number) :
    orderLoop opts lines limit 0 i line_number bytes data = .error .outOfBounds := by
  cases bytes with
  | nil => exact absurd rfl hne
  | cons c rest =>
    rw [orderLoop, if_pos ⟨hdead, harray⟩]
    rfl

end Loop

end Toolwhip.Ld
