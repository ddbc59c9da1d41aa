import Toolwhip.Ld.CStringTraces

/-! # Order files of C string sections

`cstring_order` measures the lines of the file, `get_cstring_from_sectorder` translates one of
them into the line buffer, and `cstring_reset_live` goes over the lines once more with the
indexes that were saved. -/

set_option autoImplicit false

namespace Toolwhip.Ld

def newline : UInt8 := 10
def backslash : UInt8 := 92
def CHAR_MAX : Nat := 127

def isOctal (c : UInt8) : Bool := 48 ≤ c ∧ c ≤ 55

def isHex (c : UInt8) : Bool := (48 ≤ c ∧ c ≤ 57) ∨ (97 ≤ c ∧ c ≤ 102) ∨ (65 ≤ c ∧ c ≤ 70)

def hexValue (c : UInt8) : Nat :=
  if c ≤ 57 then c.toNat - 48 else if c ≤ 70 then c.toNat - 55 else c.toNat - 87

def namedEscape (c : UInt8) : Option UInt8 :=
  [(110, 10), (116, 9), (118, 11), (98, 8), (114, 13), (102, 12), (97, 7), (92, 92), (63, 63),
    (39, 39), (34, 34)].lookup c

/-- What an escape sequence is translated to, how many characters it takes after the backslash,
how far it moves `char_pos`, and at which distance a problem is reported. -/
structure Escape where
  char : Option UInt8
  taken : Nat
  moved : Nat
  problem : Option (FormatProblem × Nat) := none
  deriving DecidableEq

def outOfRange (value position : Nat) : Option (FormatProblem × Nat) :=
  if CHAR_MAX < value then some (.outOfRangeForCharacter, position) else none

def octalEscape (rest : List UInt8) : Escape :=
  let octal := (rest.take 3).takeWhile isOctal
  let char_value := octal.foldl (fun n c => 8 * n + (c.toNat - 48)) 0
  { char := some (UInt8.ofNat char_value)
    taken := octal.length
    moved := octal.length + 1
    problem := outOfRange char_value octal.length }

/-- `rest` comes after the `x`. -/
def hexEscape (rest : List UInt8) : Escape :=
  let hex := rest.takeWhile isHex
  if hex.length > 8 then
    { char := none
      taken := hex.length + 1
      moved := hex.length + 1
      problem := some (.hexOutOfRange, hex.length + 1) }
  else
    let char_value := hex.foldl (fun n c => 16 * n + hexValue c) 0
    { char := some (UInt8.ofNat char_value)
      taken := hex.length + 1
      moved := hex.length + 2
      problem := outOfRange char_value (hex.length + 1) }

/-- What stands after a backslash; nothing at the end of a line. -/
def escape : List UInt8 → Option Escape
  | [] => none
  | c :: rest =>
    if c = 0 then none
    else if isOctal c then some (octalEscape (c :: rest))
    else
      match namedEscape c with
      | some char => some { char := some char, taken := 1, moved := 2 }
      | none =>
        if c = 120 then some (hexEscape rest)
        else some { char := some c, taken := 1, moved := 2, problem := some (.unknownEscape, 1) }

structure OrderCursor where
  index : Nat
  buffer : List UInt8 := []
  char_pos : Nat := 1
  errors : List FormatError := []
  deriving DecidableEq

/-- `limit` is the size of the line buffer. -/
def store (limit : Nat) (char : Option UInt8) (buffer : List UInt8) :
    Except LdError (List UInt8) :=
  match char with
  | none => .ok buffer
  | some c => if buffer.length < limit then .ok (buffer ++ [c]) else .error .outOfBounds

def terminate (limit : Nat) (cursor : OrderCursor) : Except LdError OrderCursor :=
  if cursor.buffer.length < limit then .ok cursor else .error .outOfBounds

def reported (line_number char_pos : Nat) (problem : Option (FormatProblem × Nat)) :
    List FormatError :=
  match problem with
  | none => []
  | some (problem, distance) =>
    [{ problem := problem, line_number := line_number, char_pos := char_pos + distance }]

/-- `get_cstring_from_sectorder` at the characters from the cursor on; the first argument is how
many of them belong to an escape sequence that was translated already. -/
def getCString (limit line_number : Nat) :
    Nat → List UInt8 → OrderCursor → Except LdError OrderCursor
  | _, [], cursor => terminate limit cursor
  | skip + 1, _ :: rest, cursor =>
    getCString limit line_number skip rest { cursor with index := cursor.index + 1 }
  | 0, c :: rest, cursor =>
    if c = 0 then terminate limit cursor
    else if c = backslash then
      match escape rest with
      | none => .error (.fatal ⟨.backslashAtEnd, line_number, cursor.char_pos⟩)
      | some e => do
        let buffer ← store limit e.char cursor.buffer
        getCString limit line_number e.taken rest
          { index := cursor.index + 1
            buffer := buffer
            char_pos := cursor.char_pos + e.moved
            errors := cursor.errors ++ reported line_number cursor.char_pos e.problem }
    else do
      let buffer ← store limit (some c) cursor.buffer
      getCString limit line_number 0 rest
        { cursor with
          index := cursor.index + 1
          buffer := buffer
          char_pos := cursor.char_pos + 1 }

def get_cstring_from_sectorder (order_addr : List UInt8) (limit line_number index : Nat) :
    Except LdError OrderCursor :=
  getCString limit line_number 0 (order_addr.drop index) { index := index }

def bufferString (cursor : OrderCursor) : List UInt8 := cursor.buffer.takeWhile (· ≠ 0)

/-- The first loop: newlines become terminators, and the lines are counted and measured. -/
def scanOrder : Nat → Nat → Nat → List UInt8 → Except LdError (List UInt8 × Nat × Nat)
  | line_number, _, max_line_length, [] => .ok ([], line_number, max_line_length)
  | line_number, line_length, max_line_length, c :: rest =>
    if c = 0 then .error (.fatal ⟨.nullCharacter, line_number, line_length⟩)
    else if c = newline then do
      let r ← scanOrder (line_number + 1) 1 (max max_line_length line_length) rest
      return (0 :: r.1, r.2)
    else do
      let r ← scanOrder line_number (line_length + 1) max_line_length rest
      return (c :: r.1, r.2)

/-- `cstring` is not in the program: it is the string that was entered for the line. -/
structure CStringOrderLine where
  character_index : Nat
  output_offset : Nat
  cstring : List UInt8
  deriving DecidableEq

structure OrderOptions where
  merge : MergeOptions
  dead_strip : Bool

/-- What `cstring_order` keeps for `cstring_reset_live`. -/
structure LoadOrderData where
  order_addr : List UInt8
  limit : Nat
  cstring_order_lines : List CStringOrderLine

variable (opts : OrderOptions)

/-- The second loop, at the characters from index `i` on; the first argument is how many of them
belong to a line that was entered already. `lines` is the size of the array of lines. -/
def orderLoop (lines limit : Nat) : Nat → Nat → Nat → List UInt8 → CStringData →
    Except LdError (List CStringOrderLine × CStringData)
  | _, _, _, [], data => .ok ([], data)
  | skip + 1, i, line_number, _ :: rest, data =>
    orderLoop lines limit skip (i + 1) line_number rest data
  | 0, i, line_number, c :: rest, data => do
    if opts.dead_strip ∧ lines < line_number then .error .outOfBounds
    let cursor ← getCString limit line_number 0 (c :: rest) { index := i }
    let (output_offset, data) ← lookup_cstring opts.merge (bufferString cursor) data
    let (others, data) ← orderLoop lines limit (cursor.index - i) (i + 1) (line_number + 1) rest data
    return ({ character_index := i, output_offset := output_offset, cstring := bufferString cursor }
      :: others, data)

def cstring_order (order : List UInt8) (data : CStringData) :
    Except LdError (LoadOrderData × CStringData) := do
  let (order_addr, line_number, max_line_length) ← scanOrder 1 1 1 order
  let limit := max_line_length + 1
  let (entered, data) ← orderLoop opts (line_number - 1) limit 0 0 1 order_addr data
  return ({ order_addr := order_addr, limit := limit, cstring_order_lines := entered }, data)

/-- The lines whose output offset is live are entered again. -/
def resetLoop (load : LoadOrderData) (is_literal_output_offset_live : Nat → Bool) :
    Nat → List CStringOrderLine → CStringData →
      Except LdError (List CStringOrderLine × CStringData)
  | _, [], data => .ok ([], data)
  | line_number, line :: rest, data =>
    if is_literal_output_offset_live line.output_offset then do
      let cursor ←
        get_cstring_from_sectorder load.order_addr load.limit line_number line.character_index
      let (output_offset, data) ← lookup_cstring opts.merge (bufferString cursor) data
      let (others, data) ←
        resetLoop load is_literal_output_offset_live (line_number + 1) rest data
      return ({ character_index := line.character_index, output_offset := output_offset,
                cstring := bufferString cursor } :: others, data)
    else resetLoop load is_literal_output_offset_live (line_number + 1) rest data

/-- The merged section starts afresh; without an order file there are no lines. -/
def cstring_reset_live (load : Option LoadOrderData) (is_literal_output_offset_live : Nat → Bool) :
    Except LdError (List CStringOrderLine × CStringData) :=
  match load with
  | none => .ok ([], {})
  | some load => resetLoop opts load is_literal_output_offset_live 1 load.cstring_order_lines {}

/-! ## Lines of an order file

What one line is translated to depends on the line only, and the line buffer is large enough for
every line that ends with a newline. -/

open List
variable {limit : Nat} {buffer : List UInt8} {c : UInt8}

/-! ### Translation of a line -/

/-- The characters that are stored for a line, and whether its end is reached. The first argument
is how many characters belong to an escape sequence that was translated already. -/
def unescape : Nat → List UInt8 → List UInt8 × Bool
  | _, [] => ([], true)
  | skip + 1, _ :: rest => unescape skip rest
  | 0, c :: rest =>
    if c = backslash then
      match escape rest with
      | none => ([], false)
      | some e => (e.char.toList ++ (unescape e.taken rest).1, (unescape e.taken rest).2)
    else (c :: (unescape 0 rest).1, (unescape 0 rest).2)

def EndsInBackslash (line : List UInt8) : Prop := (unescape 0 line).2 = false

instance (line : List UInt8) : Decidable (EndsInBackslash line) :=
  inferInstanceAs (Decidable (_ = _))

def lineString (line : List UInt8) : List UInt8 := (unescape 0 line).1.takeWhile (· ≠ 0)

def EndsLine (tail : List UInt8) : Prop := ∀ c ∈ tail.head?, c = 0

theorem endsLine_nil : EndsLine [] := nofun

theorem endsLine_zero (rest : List UInt8) : EndsLine (0 :: rest) := by
  intro c hc
  exact (Option.some.inj hc).symm

theorem takeWhile_endsLine {p : UInt8 → Bool} (hp : p 0 = false) {tail : List UInt8}
    (htail : EndsLine tail) (l : List UInt8) : (l ++ tail).takeWhile p = l.takeWhile p := by
  induction l with
  | nil =>
    cases tail with
    | nil => rfl
    | cons c tail =>
      rw [htail c rfl]
      exact takeWhile_cons_of_neg (by simp [hp])
  | cons c l ih =>
    rw [cons_append, takeWhile_cons, takeWhile_cons, ih]

section
variable {tail : List UInt8} (htail : EndsLine tail) (l : List UInt8)
include htail

theorem octalEscape_append : octalEscape (l ++ tail) = octalEscape l := by
  have hsame : ((l ++ tail).take 3).takeWhile isOctal = (l.take 3).takeWhile isOctal := by
    rw [take_append]
    apply takeWhile_endsLine rfl
    intro c hc
    apply htail c
    cases tail with
    | nil => simp at hc
    | cons d tail =>
      cases hk : 3 - l.length with
      | zero => simp [hk] at hc
      | succ k => simpa [hk] using hc
  unfold octalEscape
  rw [hsame]

theorem hexEscape_append : hexEscape (l ++ tail) = hexEscape l := by
  unfold hexEscape
  rw [takeWhile_endsLine rfl htail]

theorem escape_append : escape (l ++ tail) = escape l := by
  cases l with
  | nil =>
    cases tail with
    | nil => rfl
    | cons c tail =>
      have hc := htail c rfl
      subst c
      rfl
  | cons c l =>
    have hoctal := octalEscape_append htail (c :: l)
    rw [cons_append] at hoctal ⊢
    rw [escape, escape, hoctal, hexEscape_append htail]

end

theorem escape_taken_le {l : List UInt8} {e : Escape} (h : escape l = some e) :
    e.taken ≤ l.length := by
  cases l with
  | nil => cases h
  | cons c l =>
    rw [escape] at h
    split at h
    · cases h
    split at h
    · cases h
      have hwhile := (takeWhile_sublist (l := (c :: l).take 3) isOctal).length_le
      have htake := length_take_le' 3 (c :: l)
      exact hwhile.trans htake
    split at h
    · cases h
      exact Nat.succ_le_succ (Nat.zero_le _)
    split at h
    · cases h
      have hwhile := (takeWhile_sublist (l := l) isHex).length_le
      unfold hexEscape
      dsimp only
      split
      · exact Nat.succ_le_succ hwhile
      · exact Nat.succ_le_succ hwhile
    · cases h
      exact Nat.succ_le_succ (Nat.zero_le _)

theorem length_unescape_le (skip : Nat) (l : List UInt8) :
    (unescape skip l).1.length ≤ l.length - skip := by
  induction l generalizing skip with
  | nil => exact Nat.zero_le _
  | cons c l ih =>
    cases skip with
    | succ skip =>
      unfold unescape
      have hrest := ih skip
      rw [length_cons]
      omega
    | zero =>
      unfold unescape
      split
      · split
        · exact Nat.zero_le _
        rename_i e _
        have hrest := ih e.taken
        have hchar : e.char.toList.length ≤ 1 := by
          cases e.char <;> simp
        rw [length_append, length_cons]
        omega
      · have hrest := ih 0
        rw [length_cons, length_cons]
        omega

/-- How the translation of a line ends, `base` characters being in the buffer before. -/
inductive LineResult (limit base : Nat) (u : List UInt8 × Bool) (index : Nat) (buffer : List UInt8) :
    Except LdError OrderCursor → Prop
  | entered (cursor : OrderCursor) (hend : u.2 = true) (hroom : base + u.1.length < limit)
      (hindex : cursor.index = index) (hbuffer : cursor.buffer = buffer ++ u.1) :
      LineResult limit base u index buffer (.ok cursor)
  | stopped (e : FormatError) (hend : u.2 = false) (hroom : base + u.1.length ≤ limit) :
      LineResult limit base u index buffer (.error (.fatal e))
  | overflows (hover : limit < base + u.1.length + (if u.2 then 1 else 0)) :
      LineResult limit base u index buffer (.error .outOfBounds)

theorem LineResult.stored {limit base index : Nat} {buffer chars : List UInt8}
    {u : List UInt8 × Bool} {r : Except LdError OrderCursor}
    (h : LineResult limit (base + chars.length) u index (buffer ++ chars) r) :
    LineResult limit base (chars ++ u.1, u.2) index buffer r := by
  cases h with
  | entered cursor hend hroom hindex hbuffer =>
    refine .entered cursor hend ?_ hindex ?_
    · rw [length_append]
      omega
    · rw [hbuffer, append_assoc]
  | stopped e hend hroom =>
    refine .stopped e hend ?_
    rw [length_append]
    omega
  | overflows hover =>
    apply LineResult.overflows
    rw [length_append]
    dsimp only
    omega

theorem store_some (h : buffer.length < limit) :
    store limit (some c) buffer = .ok (buffer ++ [c]) := if_pos h

theorem store_full (h : ¬ buffer.length < limit) :
    store limit (some c) buffer = .error .outOfBounds := if_neg h

theorem terminate_result (cursor : OrderCursor) :
    LineResult limit cursor.buffer.length ([], true) cursor.index cursor.buffer
      (terminate limit cursor) := by
  unfold terminate
  split
  · rename_i hroom
    exact .entered cursor rfl hroom rfl (append_nil _).symm
  apply LineResult.overflows
  simp only [length_nil, if_true]
  omega

theorem getCString_result {limit line_number : Nat} {line tail : List UInt8} (hline : 0 ∉ line)
    (htail : EndsLine tail) (skip : Nat) (hskip : skip ≤ line.length) (cursor : OrderCursor)
    (hbase : cursor.buffer.length ≤ limit) :
    LineResult limit cursor.buffer.length (unescape skip line) (cursor.index + line.length)
      cursor.buffer (getCString limit line_number skip (line ++ tail) cursor) := by
  induction line generalizing skip cursor with
  | nil =>
    have hskip' : skip = 0 := Nat.le_zero.mp hskip
    subst hskip'
    cases tail with
    | nil => exact terminate_result cursor
    | cons c tail =>
      have hc := htail c rfl
      subst c
      exact terminate_result cursor
  | cons c line ih =>
    rw [mem_cons, not_or] at hline
    have hindex : cursor.index + (c :: line).length = cursor.index + 1 + line.length := by
      rw [length_cons]
      omega
    rw [cons_append, hindex]
    cases skip with
    | succ skip =>
      exact ih hline.2 skip (Nat.le_of_succ_le_succ hskip)
        { cursor with index := cursor.index + 1 } hbase
    | zero =>
      have hc : c ≠ 0 := fun h => hline.1 h.symm
      rw [getCString, if_neg hc, unescape]
      by_cases hback : c = backslash
      · rw [if_pos hback, if_pos hback, escape_append htail]
        cases he : escape line with
        | none => exact .stopped _ rfl hbase
        | some e =>
          have hrest := ih hline.2 e.taken (escape_taken_le he)
          dsimp only
          cases hchar : e.char with
          | none =>
            exact hrest
              { index := cursor.index + 1
                buffer := cursor.buffer
                char_pos := cursor.char_pos + e.moved
                errors := cursor.errors ++ reported line_number cursor.char_pos e.problem } hbase
          | some d =>
            by_cases hroom : cursor.buffer.length < limit
            · rw [store_some hroom]
              have hstored := hrest
                { index := cursor.index + 1
                  buffer := cursor.buffer ++ [d]
                  char_pos := cursor.char_pos + e.moved
                  errors := cursor.errors ++ reported line_number cursor.char_pos e.problem }
                (by rw [length_append, length_singleton]; omega)
              rw [length_append] at hstored
              exact LineResult.stored hstored
            · rw [store_full hroom]
              apply LineResult.overflows
              simp only [Option.toList_some, length_append, length_singleton]
              omega
      · rw [if_neg hback, if_neg hback]
        by_cases hroom : cursor.buffer.length < limit
        · rw [store_some hroom]
          have hstored := ih hline.2 0 (Nat.zero_le _)
            { cursor with
              index := cursor.index + 1
              buffer := cursor.buffer ++ [c]
              char_pos := cursor.char_pos + 1 }
            (by rw [length_append, length_singleton]; omega)
          rw [length_append] at hstored
          exact LineResult.stored hstored
        · rw [store_full hroom]
          apply LineResult.overflows
          simp only [length_cons]
          omega

end Toolwhip.Ld
