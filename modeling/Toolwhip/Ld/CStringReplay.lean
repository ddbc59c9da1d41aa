import Toolwhip.Ld.CStringFiles

/-! # What becomes of an order file

The lines that end with a newline always fit the line buffer and the array of lines, and the
indexes that are saved for them lead back to their strings. Nothing of this holds for a last line
without a newline. -/

namespace Toolwhip.Ld
open List
set_option autoImplicit false

def Replays (order_addr : List UInt8) (limit : Nat) (entry : CStringOrderLine) : Prop :=
  ∀ line_number, ∃ cursor,
    get_cstring_from_sectorder order_addr limit line_number entry.character_index = .ok cursor ∧
      bufferString cursor = entry.cstring

section Lines
variable {opts : OrderOptions} {items : List (List UInt8)} {data : CStringData}
  {lines limit line_number : Nat} {ls : List (List UInt8)}

theorem room_of_lt {line : List UInt8} (h : line.length < limit) :
    (unescape 0 line).1.length < limit := by
  have hle := length_unescape_le 0 line
  omega

theorem replays_line {line : List UInt8} (pre more : List UInt8) (hline : 0 ∉ line)
    (hend : ¬ EndsInBackslash line) (hroom : line.length < limit) {entry : CStringOrderLine}
    (hindex : entry.character_index = pre.length) (hstring : entry.cstring = lineString line) :
    Replays (pre ++ (line ++ 0 :: more)) limit entry := by
  intro line_number
  obtain ⟨cursor, hcursor, -, hbuffer⟩ := @getCString_line limit pre.length line_number line
    (0 :: more) hline (endsLine_zero more) hend (room_of_lt hroom)
  unfold get_cstring_from_sectorder
  rw [hindex, drop_left, hstring]
  exact ⟨cursor, hcursor, hbuffer⟩

section
variable (h : HoldsStrings opts.merge items data) (hnul : ∀ line ∈ ls, 0 ∉ line)
    (harray : opts.dead_strip = true → line_number + ls.length ≤ lines + 1)
include h hnul harray

theorem orderLoop_lines
    (hend : ∀ line ∈ ls, ¬ EndsInBackslash line) (hroom : ∀ line ∈ ls, line.length < limit)
    (pre : List UInt8) :
    ∃ entries data', Entered opts.merge items (ls.map lineString) (orderTrace entries) data' ∧
      (∀ more, ∀ entry ∈ entries, Replays (pre ++ joinLines ls more) limit entry) ∧
      ∀ more, orderLoop opts lines limit 0 pre.length line_number (joinLines ls more) data =
        (orderLoop opts lines limit 0 (pre ++ joinLines ls []).length (line_number + ls.length) more
          data').map fun r => (entries ++ r.1, r.2) := by
  induction ls generalizing items data line_number pre with
  | nil =>
    refine ⟨[], data, Entered.nil h, nofun, ?_⟩
    intro more
    have hnone : joinLines [] [] = [] := rfl
    rw [hnone, append_nil]
    change orderLoop opts lines limit 0 pre.length line_number more data = _
    cases orderLoop opts lines limit 0 pre.length line_number more data <;> rfl
  | cons line ls ih =>
    have hline := hnul line mem_cons_self
    have hfits := hroom line mem_cons_self
    have hgood := hend line mem_cons_self
    rw [length_cons] at harray
    have harray' : ¬ (opts.dead_strip = true ∧ lines < line_number) := by
      rintro ⟨hdead, hlt⟩
      have := harray hdead
      omega
    obtain ⟨entry, data₁, hindex, hstring, hfirst, hloop, -⟩ :=
      @orderLoop_enters opts items data lines limit pre.length line_number line h hline harray' hgood
        (room_of_lt hfits)
    obtain ⟨entries, data₂, hothers, hreplays, hrest⟩ :=
      @ih _ data₁ (line_number + 1) hfirst.holds (fun l hl => hnul l (mem_cons_of_mem _ hl))
        (fun hdead => by have := harray hdead; omega)
        (fun l hl => hend l (mem_cons_of_mem _ hl))
        (fun l hl => hroom l (mem_cons_of_mem _ hl)) (pre ++ (line ++ [0]))
    have hsplit : ∀ more, pre ++ joinLines (line :: ls) more =
        pre ++ (line ++ [0]) ++ joinLines ls more := by
      intro more
      rw [joinLines_cons]
      simp
    refine ⟨entry :: entries, data₂, hfirst.append hothers, ?_, ?_⟩
    · intro more e he
      rcases List.mem_cons.mp he with rfl | he
      · rw [joinLines_cons]
        exact replays_line pre _ hline hgood hfits hindex hstring
      · rw [hsplit]
        exact hreplays more e he
    · intro more
      have hlen : (pre ++ (line ++ [(0 : UInt8)])).length = pre.length + line.length + 1 := by
        simp
        omega
      have hcount : line_number + 1 + ls.length = line_number + (ls.length + 1) := by omega
      rw [joinLines_cons, hloop, hsplit, ← hlen, hrest more, length_cons, hcount]
      cases orderLoop opts lines limit 0 (pre ++ (line ++ [0]) ++ joinLines ls []).length
        (line_number + (ls.length + 1)) more data₂ <;> rfl

theorem orderLoop_backslash
    (hroom : ∀ line ∈ ls, line.length < limit) (hend : ∃ line ∈ ls, EndsInBackslash line)
    (i : Nat) (more : List UInt8) :
    ∃ e, orderLoop opts lines limit 0 i line_number (joinLines ls more) data =
      .error (.fatal e) := by
  induction ls generalizing items data line_number i with
  | nil =>
    obtain ⟨line, hmem, -⟩ := hend
    cases hmem
  | cons line ls ih =>
    have hline := hnul line mem_cons_self
    have hfits := room_of_lt (hroom line mem_cons_self)
    rw [length_cons] at harray
    have harray' : ¬ (opts.dead_strip = true ∧ lines < line_number) := by
      rintro ⟨hdead, hlt⟩
      have := harray hdead
      omega
    rw [joinLines_cons]
    by_cases hback : EndsInBackslash line
    · exact orderLoop_stops (by simp) hline (endsLine_zero _) harray' hback (Nat.le_of_lt hfits)
    obtain ⟨entry, data₁, -, -, hfirst, hloop, -⟩ :=
      @orderLoop_enters opts items data lines limit i line_number line h hline harray' hback hfits
    have hothers : ∃ l ∈ ls, EndsInBackslash l := by
      obtain ⟨l, hl, hbad⟩ := hend
      rcases List.mem_cons.mp hl with rfl | hl
      · exact absurd hbad hback
      · exact ⟨l, hl, hbad⟩
    obtain ⟨e, he⟩ := @ih _ data₁ (line_number + 1) hfirst.holds
      (fun l hl => hnul l (mem_cons_of_mem _ hl))
      (fun hdead => by have := harray hdead; omega)
      (fun l hl => hroom l (mem_cons_of_mem _ hl)) hothers (i + line.length + 1)
    rw [hloop, he]
    exact ⟨e, rfl⟩

end

end Lines

/-! ## cstring_order -/

def orderLines (order : List UInt8) : List (List UInt8) :=
  (splitLines order).1 ++ if (splitLines order).2 = [] then [] else [(splitLines order).2]

def orderStrings (order : List UInt8) : List (List UInt8) := (orderLines order).map lineString

def StopsEarly (order : List UInt8) : Prop := ∃ line ∈ (splitLines order).1, EndsInBackslash line

/-- There is nothing behind the last newline, or what is there fits a line buffer that was
allocated for the other lines, and no array of lines is kept. -/
def LastFits (dead_strip : Bool) (order : List UInt8) : Prop :=
  (splitLines order).2 = [] ∨ dead_strip = false ∧
    (unescape 0 (splitLines order).2).1.length +
      (if (unescape 0 (splitLines order).2).2 then 1 else 0) ≤
        maxLineLength 1 1 (splitLines order).1 + 1

instance (order : List UInt8) : Decidable (StopsEarly order) := List.decidableBEx _ _

instance (dead_strip : Bool) (order : List UInt8) : Decidable (LastFits dead_strip order) :=
  inferInstanceAs (Decidable (_ ∨ _ ∧ _))

inductive OrderResult (opts : OrderOptions) (order : List UInt8) :
    Except LdError (LoadOrderData × CStringData) → Prop
  | stopped (e : FormatError)
      (hstops : StopsEarly order ∨
        LastFits opts.dead_strip order ∧ EndsInBackslash (splitLines order).2) :
      OrderResult opts order (.error (.fatal e))
  | overflows (hearly : ¬ StopsEarly order) (hlast : ¬ LastFits opts.dead_strip order) :
      OrderResult opts order (.error .outOfBounds)
  | entered (load : LoadOrderData) (data : CStringData) (hearly : ¬ StopsEarly order)
      (hlast : LastFits opts.dead_strip order) (hend : ¬ EndsInBackslash (splitLines order).2)
      (hentered : Entered opts.merge [] (orderStrings order)
        (orderTrace load.cstring_order_lines) data)
      (hreplays : opts.dead_strip = true → ∀ entry ∈ load.cstring_order_lines,
        Replays load.order_addr load.limit entry) :
      OrderResult opts order (.ok (load, data))

theorem not_endsInBackslash_nil : ¬ EndsInBackslash [] := nofun

theorem cstring_order_eq (opts : OrderOptions) {order : List UInt8} (h : 0 ∉ order) :
    cstring_order opts order {} =
      (orderLoop opts (splitLines order).1.length (maxLineLength 1 1 (splitLines order).1 + 1) 0 0 1
        (joinLines (splitLines order).1 (splitLines order).2) {}).map fun r =>
          ({ order_addr := joinLines (splitLines order).1 (splitLines order).2
             limit := maxLineLength 1 1 (splitLines order).1 + 1
             cstring_order_lines := r.1 }, r.2) := by
  have hcount : 1 + (splitLines order).1.length - 1 = (splitLines order).1.length := by omega
  unfold cstring_order
  rw [scanOrder_eq h]
  dsimp only [bind, Except.bind]
  rw [hcount]
  cases orderLoop opts (splitLines order).1.length (maxLineLength 1 1 (splitLines order).1 + 1) 0 0 1
    (joinLines (splitLines order).1 (splitLines order).2) {} <;> rfl

section
variable {opts : OrderOptions} {order : List UInt8} (h : 0 ∉ order) (hearly : ¬ StopsEarly order)
include h hearly

theorem cstring_order_lines : ∃ entries data i,
      Entered opts.merge [] ((splitLines order).1.map lineString) (orderTrace entries) data ∧
      (∀ entry ∈ entries, Replays (joinLines (splitLines order).1 (splitLines order).2)
        (maxLineLength 1 1 (splitLines order).1 + 1) entry) ∧
      cstring_order opts order {} =
        (orderLoop opts (splitLines order).1.length (maxLineLength 1 1 (splitLines order).1 + 1) 0 i
          (1 + (splitLines order).1.length) (splitLines order).2 data).map fun r =>
            ({ order_addr := joinLines (splitLines order).1 (splitLines order).2
               limit := maxLineLength 1 1 (splitLines order).1 + 1
               cstring_order_lines := entries ++ r.1 }, r.2) := by
  have hroom : ∀ line ∈ (splitLines order).1,
      line.length < maxLineLength 1 1 (splitLines order).1 + 1 :=
    fun line hline => Nat.lt_succ_of_lt (length_lt_maxLineLength hline 1)
  have harray : opts.dead_strip = true →
      1 + (splitLines order).1.length ≤ (splitLines order).1.length + 1 := by
    intro _
    omega
  obtain ⟨entries, data, hentered, hreplays, hloop⟩ :=
    orderLoop_lines (holdsStrings_empty opts.merge) (splitLines_noNul h).1 harray
      (fun line hline hbad => hearly ⟨line, hline, hbad⟩) hroom []
  have hreplay := hreplays (splitLines order).2
  have hwhole := hloop (splitLines order).2
  rw [length_nil] at hwhole
  rw [nil_append] at hreplay
  refine ⟨entries, data, ([] ++ joinLines (splitLines order).1 []).length, hentered, hreplay, ?_⟩
  rw [cstring_order_eq opts h, hwhole]
  cases orderLoop opts (splitLines order).1.length (maxLineLength 1 1 (splitLines order).1 + 1) 0
    ([] ++ joinLines (splitLines order).1 []).length (1 + (splitLines order).1.length)
    (splitLines order).2 data <;> rfl

theorem cstring_order_terminated (hnone : (splitLines order).2 = []) :
    OrderResult opts order (cstring_order opts order {}) := by
  obtain ⟨entries, data, i, hentered, hreplays, horder⟩ := @cstring_order_lines opts order h hearly
  have hstrings : orderStrings order = (splitLines order).1.map lineString := by
    unfold orderStrings orderLines
    rw [if_pos hnone, append_nil]
  have hends : ¬ EndsInBackslash (splitLines order).2 := by
    rw [hnone]
    exact not_endsInBackslash_nil
  rw [horder, orderLoop_end (by rw [hnone]; exact Nat.le_refl 0)]
  refine .entered _ _ hearly (Or.inl hnone) hends ?_ ?_
  · rw [hstrings, append_nil]
    exact hentered
  · intro _ entry hentry
    rw [append_nil] at hentry
    exact hreplays entry hentry

theorem cstring_order_unterminated (hsome : (splitLines order).2 ≠ [])
    (hdead : opts.dead_strip = false) : OrderResult opts order (cstring_order opts order {}) := by
  obtain ⟨entries, data, i, hentered, -, horder⟩ := @cstring_order_lines opts order h hearly
  have hlast := (splitLines_noNul h).2
  have hne : (splitLines order).2 ++ [] ≠ [] := by
    rw [append_nil]
    exact hsome
  have harray : ¬ (opts.dead_strip = true ∧ (splitLines order).1.length <
      1 + (splitLines order).1.length) := by
    rw [hdead]
    exact nofun
  rw [horder]
  by_cases hfit : (unescape 0 (splitLines order).2).1.length +
      (if (unescape 0 (splitLines order).2).2 then 1 else 0) ≤
        maxLineLength 1 1 (splitLines order).1 + 1
  · have hfits : LastFits opts.dead_strip order := Or.inr ⟨hdead, hfit⟩
    by_cases hback : EndsInBackslash (splitLines order).2
    · have hstops := @orderLoop_stops opts data _ _ i _ _ [] hne hlast endsLine_nil harray hback
        (Nat.le_trans (Nat.le_add_right _ _) hfit)
      rw [append_nil] at hstops
      obtain ⟨e, he⟩ := hstops
      rw [he]
      exact .stopped e (Or.inr ⟨hfits, hback⟩)
    · have hdone : (unescape 0 (splitLines order).2).2 = true := by
        unfold EndsInBackslash at hback
        simpa using hback
      rw [if_pos hdone] at hfit
      obtain ⟨entry, data', -, -, hlastEntered, -, hends⟩ :=
        @orderLoop_enters opts _ data _ _ i _ _ hentered.holds hlast harray hback hfit
      have hstrings : orderStrings order =
          (splitLines order).1.map lineString ++ [lineString (splitLines order).2] := by
        unfold orderStrings orderLines
        rw [if_neg hsome, map_append]
        rfl
      rw [hends hsome]
      refine .entered _ _ hearly hfits hback ?_ ?_
      · rw [hstrings]
        unfold orderTrace
        rw [map_append]
        exact hentered.append hlastEntered
      · intro htrue
        rw [hdead] at htrue
        cases htrue
  · have hstops := @orderLoop_overflows opts data (splitLines order).1.length _ i
      (1 + (splitLines order).1.length) _ [] hne hlast endsLine_nil (Nat.lt_of_not_le hfit)
    rw [append_nil] at hstops
    rw [hstops]
    refine .overflows hearly ?_
    rintro (hnil | ⟨-, hle⟩)
    · exact hsome hnil
    · exact hfit hle

end

theorem cstring_order_result (opts : OrderOptions) {order : List UInt8} (h : 0 ∉ order) :
    OrderResult opts order (cstring_order opts order {}) := by
  by_cases hearly : StopsEarly order
  · have hroom : ∀ line ∈ (splitLines order).1,
        line.length < maxLineLength 1 1 (splitLines order).1 + 1 :=
      fun line hline => Nat.lt_succ_of_lt (length_lt_maxLineLength hline 1)
    have harray : opts.dead_strip = true →
        1 + (splitLines order).1.length ≤ (splitLines order).1.length + 1 := by
      intro _
      omega
    obtain ⟨e, he⟩ := orderLoop_backslash (holdsStrings_empty opts.merge) (splitLines_noNul h).1
      harray hroom hearly 0 (splitLines order).2
    rw [cstring_order_eq opts h, he]
    exact .stopped e (Or.inl hearly)
  by_cases hnone : (splitLines order).2 = []
  · exact cstring_order_terminated h hearly hnone
  by_cases hdead : opts.dead_strip = true
  · obtain ⟨entries, data, i, -, -, horder⟩ := @cstring_order_lines opts order h hearly
    rw [horder, orderLoop_array hnone hdead (by omega)]
    refine .overflows hearly ?_
    rintro (hnil | ⟨hnot, -⟩)
    · exact hnone hnil
    · rw [hdead] at hnot
      cases hnot
  · exact cstring_order_unterminated h hearly hnone (Bool.not_eq_true _ ▸ hdead)

/-- The lines whose offset is live are entered again, in the order of the file. -/
theorem resetLoop_entered {opts : OrderOptions} {items : List (List UInt8)} {data : CStringData}
    {load : LoadOrderData} {is_literal_output_offset_live : Nat → Bool}
    {entries : List CStringOrderLine}
    (hreplays : ∀ entry ∈ entries, Replays load.order_addr load.limit entry)
    (hnul : ∀ entry ∈ entries, (0 : UInt8) ∉ entry.cstring)
    (h : HoldsStrings opts.merge items data) (line_number : Nat) :
    ∃ entries' data', resetLoop opts load is_literal_output_offset_live line_number entries data =
        .ok (entries', data') ∧
      Entered opts.merge items
        ((entries.filter fun entry => is_literal_output_offset_live entry.output_offset).map
          CStringOrderLine.cstring) (orderTrace entries') data' := by
  induction entries generalizing items data line_number with
  | nil => exact ⟨[], data, rfl, Entered.nil h⟩
  | cons entry entries ih =>
    have hothers := fun e he => hreplays e (mem_cons_of_mem entry he)
    have hnuls := fun e he => hnul e (mem_cons_of_mem entry he)
    unfold resetLoop
    by_cases hlive : is_literal_output_offset_live entry.output_offset = true
    · obtain ⟨cursor, hcursor, hstring⟩ := hreplays entry mem_cons_self line_number
      obtain ⟨offset, data₁, hlookup, hfirst⟩ :=
        Entered.lookup h (hnul entry mem_cons_self)
      obtain ⟨entries', data₂, hloop, hrest⟩ := ih hothers hnuls hfirst.holds (line_number + 1)
      rw [if_pos hlive, hcursor]
      dsimp only [bind, Except.bind]
      rw [hstring, hlookup]
      dsimp only
      rw [hloop, filter_cons, if_pos hlive]
      exact ⟨_, data₂, rfl, hfirst.append hrest⟩
    · rw [if_neg hlive, filter_cons, if_neg hlive]
      exact ih hothers hnuls h (line_number + 1)

end Toolwhip.Ld
