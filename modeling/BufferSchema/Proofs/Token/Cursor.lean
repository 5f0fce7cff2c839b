import BufferSchema.Proofs.Token.Classified
import BufferSchema.Token.Cursor

/-!
# Where a cursor goes

A cursor is a 64-bit number, and so are the distances that it is moved by. `Cursor.Move.target` says where a move
leads if numbers have no bound: to a place of the stream or, if that would lie outside, nowhere. Cursors go there,
with one exception. The sum that a forward move takes may not fit 64 bits. Where arithmetic is checked, such a move
fails. Where it wraps, what is left of the sum lies in front of the cursor, and the move goes back instead of staying
where it is; it does not leave the stream either.
-/

namespace BufferSchema

namespace Arithmetic

variable {a : Arithmetic} {m n : UInt64}

/-- A sum that fits is taken, whatever the arithmetic. -/
theorem add?_of_lt (h : m.toNat + n.toNat < 2 ^ 64) :
    ∃ i, a.add? m n = some i ∧ i.toNat = m.toNat + n.toNat := by
  have hsum : (m + n).toNat = m.toNat + n.toNat := by rw [UInt64.toNat_add, Nat.mod_eq_of_lt h]
  cases a with
  | checked => exact ⟨m + n, if_pos h, hsum⟩
  | wrapping => exact ⟨m + n, rfl, hsum⟩

theorem checked_add?_of_le (h : 2 ^ 64 ≤ m.toNat + n.toNat) : checked.add? m n = none :=
  if_neg (Nat.not_lt.2 h)

/-- Where it wraps, a sum that does not fit loses its 65th bit. -/
theorem wrapping_add?_of_le (h : 2 ^ 64 ≤ m.toNat + n.toNat) :
    ∃ i, wrapping.add? m n = some i ∧ i.toNat = m.toNat + n.toNat - 2 ^ 64 := by
  have hm := m.toNat_lt
  have hn := n.toNat_lt
  refine ⟨m + n, rfl, ?_⟩
  rw [UInt64.toNat_add]
  omega

end Arithmetic

namespace Cursor

/-- A move of a cursor in a token stream. -/
inductive Move where
  | advance
  | jump (index : UInt64)
  | forward (n : UInt64)
  | backward (n : UInt64)
deriving DecidableEq, Repr

namespace Move

variable {size i : Nat} {n : UInt64}

/-- Where a move leads from the place `i` of a stream of `size` tokens, over numbers without bound. -/
def target (size i : Nat) : Move → Nat
  | advance => min (i + 1) size
  | jump index => if index.toNat ≤ size then index.toNat else i
  | forward n => if i + n.toNat ≤ size then i + n.toNat else i
  | backward n => if n.toNat ≤ i then i - n.toNat else i

/-- The move is a forward one, and the sum that it takes at the place `i` does not fit 64 bits. -/
def Overflows (i : Nat) : Move → Prop
  | forward n => 2 ^ 64 ≤ i + n.toNat
  | _ => False

/-- One of the moves, made one after the other from the place `i` on, takes a sum that does not fit 64 bits. -/
def SomeOverflows (size i : Nat) : List Move → Prop
  | [] => False
  | m :: ms => m.Overflows i ∨ SomeOverflows size (m.target size i) ms

theorem target_le (h : i ≤ size) (m : Move) : m.target size i ≤ size := by
  cases m with
  | advance => exact Nat.min_le_right _ _
  | jump index => simp only [target]; split <;> omega
  | forward n => simp only [target]; split <;> omega
  | backward n => simp only [target]; split <;> omega

theorem exists_of_overflows {m : Move} (h : m.Overflows i) : ∃ n, m = forward n ∧ 2 ^ 64 ≤ i + n.toNat := by
  cases m with
  | forward n => exact ⟨n, rfl, h⟩
  | _ => exact h.elim

end Move

theorem toNat_stepBackward (c : Cursor) (n : UInt64) :
    (c.stepBackward n).index.toNat = if n.toNat ≤ c.index.toNat then c.index.toNat - n.toNat else c.index.toNat := by
  unfold stepBackward
  by_cases hle : n ≤ c.index
  · have hle' : n.toNat ≤ c.index.toNat := UInt64.le_iff_toNat_le.1 hle
    rw [if_pos hle']
    by_cases hpos : 0 < n
    · rw [if_pos ⟨hpos, hle⟩, UInt64.toNat_sub_of_le _ _ hle]
    · have hzero : ¬ 0 < n.toNat := fun h => hpos (UInt64.lt_iff_toNat_lt.2 h)
      rw [if_neg fun h => hpos h.1]
      omega
  · rw [if_neg fun h => hle h.2, if_neg fun h => hle (UInt64.le_iff_toNat_le.2 h)]

end Cursor

namespace TokenStream

open Cursor (Move toNat_stepBackward)

variable {a : Arithmetic} {s : TokenStream} {c d : Cursor} {n : UInt64}

/-- The cursor behind a move. -/
def move (a : Arithmetic) (s : TokenStream) (c : Cursor) : Move → Option Cursor
  | .advance => some (s.advance c)
  | .jump index => some (s.jump c index)
  | .forward n => s.stepForward a c n
  | .backward n => some (c.stepBackward n)

/-- The cursor behind several moves, one after the other. -/
def run (a : Arithmetic) (s : TokenStream) (c : Cursor) (ms : List Move) : Option Cursor := ms.foldlM (s.move a) c

/-! One move. -/

theorem toNat_advance (hsize : s.size < 2 ^ 64) (hc : c.index.toNat ≤ s.size) :
    (s.advance c).index.toNat = min (c.index.toNat + 1) s.size := by
  unfold advance
  split
  · next hlt =>
    have hone : (1 : UInt64).toNat = 1 := rfl
    rw [UInt64.toNat_add, hone]
    omega
  · omega

theorem toNat_jump (index : UInt64) :
    (s.jump c index).index.toNat = if index.toNat ≤ s.size then index.toNat else c.index.toNat := by
  unfold jump
  split <;> rfl

/-- A forward move whose sum fits 64 bits goes there, or stays if that lies outside. -/
theorem stepForward_of_lt (a : Arithmetic) (s : TokenStream) (hsum : c.index.toNat + n.toNat < 2 ^ 64) :
    ∃ d, s.stepForward a c n = some d ∧ d.index.toNat =
      if c.index.toNat + n.toNat ≤ s.size then c.index.toNat + n.toNat else c.index.toNat := by
  unfold stepForward
  by_cases hpos : 0 < n
  · obtain ⟨i, hi, htoNat⟩ := Arithmetic.add?_of_lt (a := a) hsum
    rw [if_pos hpos, hi, Option.map_some, ← htoNat]
    refine ⟨_, rfl, ?_⟩
    split <;> rfl
  · have hzero : ¬ 0 < n.toNat := fun h => hpos (UInt64.lt_iff_toNat_lt.2 h)
    rw [if_neg hpos]
    refine ⟨c, rfl, ?_⟩
    split <;> omega

theorem pos_of_overflow (hsum : 2 ^ 64 ≤ c.index.toNat + n.toNat) : 0 < n := by
  have hindex := c.index.toNat_lt
  exact UInt64.lt_iff_toNat_lt.2 (show 0 < n.toNat by omega)

/-- A forward move whose sum does not fit 64 bits fails where arithmetic is checked. -/
theorem checked_stepForward_of_le (hsum : 2 ^ 64 ≤ c.index.toNat + n.toNat) :
    s.stepForward .checked c n = none := by
  rw [stepForward, if_pos (pos_of_overflow hsum), Arithmetic.checked_add?_of_le hsum]
  rfl

/-- Where arithmetic wraps, it goes to what is left of the sum, and that is back. -/
theorem wrapping_stepForward_of_le (hc : c.index.toNat ≤ s.size) (hsum : 2 ^ 64 ≤ c.index.toNat + n.toNat) :
    ∃ d, s.stepForward .wrapping c n = some d ∧ d.index.toNat = c.index.toNat + n.toNat - 2 ^ 64 := by
  obtain ⟨i, hi, htoNat⟩ := Arithmetic.wrapping_add?_of_le hsum
  have hn := n.toNat_lt
  rw [stepForward, if_pos (pos_of_overflow hsum), hi, Option.map_some, if_pos (by omega)]
  exact ⟨_, rfl, htoNat⟩

/-- A move that does not overflow goes where it leads over numbers without bound. -/
theorem move_of_not_overflows (a : Arithmetic) (hsize : s.size < 2 ^ 64) (hc : c.index.toNat ≤ s.size) {m : Move}
    (h : ¬ m.Overflows c.index.toNat) :
    ∃ d, s.move a c m = some d ∧ d.index.toNat = m.target s.size c.index.toNat := by
  cases m with
  | advance => exact ⟨_, rfl, toNat_advance hsize hc⟩
  | jump index => exact ⟨_, rfl, toNat_jump index⟩
  | backward n => exact ⟨_, rfl, toNat_stepBackward c n⟩
  | forward n => exact stepForward_of_lt a s (Nat.lt_of_not_le h)

/-- A move fails exactly if it overflows where arithmetic is checked. -/
theorem move_eq_none_iff (hsize : s.size < 2 ^ 64) (hc : c.index.toNat ≤ s.size) (m : Move) :
    s.move a c m = none ↔ a = .checked ∧ m.Overflows c.index.toNat := by
  by_cases hover : m.Overflows c.index.toNat
  · obtain ⟨n, rfl, hsum⟩ := Move.exists_of_overflows hover
    cases a with
    | checked => simp [move, checked_stepForward_of_le hsum, hover]
    | wrapping =>
      obtain ⟨d, hd, -⟩ := wrapping_stepForward_of_le hc hsum
      simp [move, hd]
  · obtain ⟨d, hd, -⟩ := move_of_not_overflows a hsize hc hover
    simp [hd, hover]

/-- A move that overflows and comes through leads back. Over numbers without bound it would leave the stream. -/
theorem lt_of_overflows (hsize : s.size < 2 ^ 64) (hc : c.index.toNat ≤ s.size) {m : Move}
    (h : m.Overflows c.index.toNat) (hd : s.move a c m = some d) :
    d.index.toNat < c.index.toNat ∧ m.target s.size c.index.toNat = c.index.toNat := by
  obtain ⟨n, rfl, hsum⟩ := Move.exists_of_overflows h
  have hn := n.toNat_lt
  refine ⟨?_, if_neg (by omega)⟩
  cases a with
  | checked => cases hd.symm.trans (checked_stepForward_of_le hsum)
  | wrapping =>
    obtain ⟨d', hd', hback⟩ := wrapping_stepForward_of_le hc hsum
    obtain rfl := Option.some.inj (hd.symm.trans hd')
    omega

/-- A move goes where it leads over numbers without bound exactly if it does not overflow. -/
theorem move_exact_iff (hsize : s.size < 2 ^ 64) (hc : c.index.toNat ≤ s.size) (m : Move) :
    (∃ d, s.move a c m = some d ∧ d.index.toNat = m.target s.size c.index.toNat) ↔ ¬ m.Overflows c.index.toNat := by
  refine ⟨?_, move_of_not_overflows a hsize hc⟩
  rintro ⟨d, hd, htarget⟩ hover
  obtain ⟨hback, hstays⟩ := lt_of_overflows hsize hc hover hd
  omega

theorem move_le (hsize : s.size < 2 ^ 64) (hc : c.index.toNat ≤ s.size) {m : Move} (hd : s.move a c m = some d) :
    d.index.toNat ≤ s.size := by
  by_cases hover : m.Overflows c.index.toNat
  · obtain ⟨hback, -⟩ := lt_of_overflows hsize hc hover hd
    omega
  · obtain ⟨d', hd', htarget⟩ := move_of_not_overflows a hsize hc hover
    obtain rfl := Option.some.inj (hd.symm.trans hd')
    exact htarget ▸ Move.target_le hc m

/-! Several moves. -/

@[simp] theorem run_nil : s.run a c [] = some c := rfl

theorem run_cons {m : Move} {ms : List Move} : s.run a c (m :: ms) = (s.move a c m).bind (s.run a · ms) :=
  List.foldlM_cons

theorem run_le (hsize : s.size < 2 ^ 64) (hc : c.index.toNat ≤ s.size) {ms : List Move} (hd : s.run a c ms = some d) :
    d.index.toNat ≤ s.size := by
  induction ms generalizing c with
  | nil => exact Option.some.inj hd ▸ hc
  | cons m ms ih =>
    rw [run_cons] at hd
    obtain ⟨b, hb, hd⟩ := Option.bind_eq_some_iff.1 hd
    exact ih (move_le hsize hc hb) hd

/-- A run without an overflow ends where it leads over numbers without bound. -/
theorem run_of_not_overflows (a : Arithmetic) (hsize : s.size < 2 ^ 64) (hc : c.index.toNat ≤ s.size) {ms : List Move}
    (h : ¬ Move.SomeOverflows s.size c.index.toNat ms) :
    ∃ d, s.run a c ms = some d ∧ d.index.toNat = ms.foldl (Move.target s.size) c.index.toNat := by
  induction ms generalizing c with
  | nil => exact ⟨c, rfl, rfl⟩
  | cons m ms ih =>
    obtain ⟨hfirst, hlater⟩ := not_or.1 h
    obtain ⟨b, hb, htarget⟩ := move_of_not_overflows a hsize hc hfirst
    rw [← htarget] at hlater
    obtain ⟨d, hd, hend⟩ := ih (move_le hsize hc hb) hlater
    refine ⟨d, ?_, by rw [hend, htarget, List.foldl_cons]⟩
    rw [run_cons, hb]
    exact hd

theorem run_eq_none_iff (hsize : s.size < 2 ^ 64) (hc : c.index.toNat ≤ s.size) (ms : List Move) :
    s.run a c ms = none ↔ a = .checked ∧ Move.SomeOverflows s.size c.index.toNat ms := by
  induction ms generalizing c with
  | nil => simp [Move.SomeOverflows]
  | cons m ms ih =>
    rw [run_cons, Move.SomeOverflows, and_or_left, ← move_eq_none_iff hsize hc]
    cases hb : s.move a c m with
    | none => simp
    | some b =>
      rw [Option.bind_some, ih (move_le hsize hc hb)]
      by_cases hover : m.Overflows c.index.toNat
      · -- The move came through, so arithmetic wraps and nothing fails at all.
        have hwraps : a ≠ .checked := by
          intro ha
          cases hb.symm.trans ((move_eq_none_iff hsize hc m).2 ⟨ha, hover⟩)
        simp [hwraps]
      · obtain ⟨b', hb', htarget⟩ := move_of_not_overflows a hsize hc hover
        obtain rfl := Option.some.inj (hb.symm.trans hb')
        simp [htarget]

/-- As long as no sum overflows, a cursor goes exactly where its moves lead over numbers without bound, in a stream
whose size is itself a 64-bit number. Only where arithmetic is checked can a run fail, and it does so exactly if one of
its sums overflows. A cursor that has been moved stays in its stream, whatever moves it has made, and the next move is
the exact one unless its sum overflows. Then it fails where arithmetic is checked; where arithmetic wraps, it goes back
by the difference between `n` and `2 ^ 64`. -/
theorem run_move_exact (a : Arithmetic) (hsize : s.size < 2 ^ 64) (hc : c.index.toNat ≤ s.size) (ms : List Move) :
    (¬ Move.SomeOverflows s.size c.index.toNat ms →
      ∃ d, s.run a c ms = some d ∧ d.index.toNat = ms.foldl (Move.target s.size) c.index.toNat) ∧
    (s.run a c ms = none ↔ a = .checked ∧ Move.SomeOverflows s.size c.index.toNat ms) ∧
    ∀ d, s.run a c ms = some d → d.index.toNat ≤ s.size ∧ ∀ m : Move,
      ((∃ d', s.move a d m = some d' ∧ d'.index.toNat = m.target s.size d.index.toNat) ↔
        ¬ m.Overflows d.index.toNat) ∧
      (∀ d', s.move a d m = some d' → d'.index.toNat ≤ s.size) ∧
      ∀ n, m = .forward n → m.Overflows d.index.toNat →
        match a with
        | .checked => s.move a d m = none
        | .wrapping => ∃ d', s.move a d m = some d' ∧ d'.index.toNat + (2 ^ 64 - n.toNat) = d.index.toNat := by
  refine ⟨run_of_not_overflows a hsize hc, run_eq_none_iff hsize hc ms, fun d hd => ?_⟩
  have hle := run_le hsize hc hd
  refine ⟨hle, fun m => ⟨move_exact_iff hsize hle m, fun d' => move_le hsize hle, ?_⟩⟩
  rintro n rfl hover
  cases a with
  | checked => exact checked_stepForward_of_le hover
  | wrapping =>
    obtain ⟨d', hd', hback⟩ := wrapping_stepForward_of_le hle hover
    have hn := n.toNat_lt
    simp only [Move.Overflows] at hover
    exact ⟨d', hd', by omega⟩

theorem exists_scan_of_seven :
    ∃ s, (scan "struct A \x7b field a u8 \x7d").result = .ok s ∧ s.size = 7 :=
  ⟨_, scan_result_eq_ok_iff.2 ⟨by decide +kernel, rfl⟩, by decide +kernel⟩

theorem run_move_in_seven :
    ∃ s, (scan "struct A \x7b field a u8 \x7d").result = .ok s ∧ s.size < 2 ^ 64 ∧
      (⟨0⟩ : Cursor).index.toNat ≤ s.size ∧
      ¬ Move.SomeOverflows s.size 0 [.forward 6, .jump 9, .backward 1] ∧
      (∃ d, s.run .wrapping ⟨0⟩ [.forward 6, .jump 9, .backward 1] = some d ∧ d.index.toNat = 5 ∧
        Move.Overflows d.index.toNat (.forward 18446744073709551613) ∧
        ∃ d', s.move .wrapping d (.forward 18446744073709551613) = some d' ∧ d'.index.toNat + 3 = 5) ∧
      s.run .checked ⟨0⟩ [.forward 6, .jump 9, .backward 1, .forward 18446744073709551613] = none := by
  obtain ⟨s, hscan, hseven⟩ := exists_scan_of_seven
  have hsize : s.size < 2 ^ 64 := by omega
  have hstart : (⟨0⟩ : Cursor).index.toNat ≤ s.size := Nat.zero_le _
  have hfits : ¬ Move.SomeOverflows s.size 0 [.forward 6, .jump 9, .backward 1] := by
    simp [Move.SomeOverflows, Move.Overflows]
  have hover : Move.SomeOverflows s.size 0 [.forward 6, .jump 9, .backward 1, .forward 18446744073709551613] := by
    simp [Move.SomeOverflows, Move.Overflows, Move.target, hseven]
  obtain ⟨hexact, -, hreached⟩ := run_move_exact .wrapping hsize hstart [.forward 6, .jump 9, .backward 1]
  obtain ⟨d, hd, hindex⟩ := hexact hfits
  have hfive : d.index.toNat = 5 := by
    rw [hindex, hseven]
    rfl
  have hlast : Move.Overflows d.index.toNat (.forward 18446744073709551613) := by
    simp [Move.Overflows, hfive]
  obtain ⟨d', hd', hback⟩ := ((hreached d hd).2 _).2.2 _ rfl hlast
  refine ⟨s, hscan, hsize, hstart, hfits, ⟨d, hd, hfive, hlast, d', hd', hfive ▸ hback⟩, ?_⟩
  exact (run_move_exact .checked hsize hstart _).2.1.2 ⟨rfl, hover⟩

/-- In a stream of seven tokens a move by three less than `2 ^ 64` from the sixth token fails where arithmetic is
checked, and leads back to the third where it wraps. -/
theorem forward_move_goes_back :
    ∃ s, (scan "struct A \x7b field a u8 \x7d").result = .ok s ∧
      s.run .checked ⟨0⟩ [.jump 5, .forward 18446744073709551613] = none ∧
      s.run .wrapping ⟨0⟩ [.jump 5, .forward 18446744073709551613] = some ⟨2⟩ ∧
      Move.target s.size 5 (.forward 18446744073709551613) = 5 := by
  obtain ⟨s, hscan, hseven⟩ := exists_scan_of_seven
  refine ⟨s, hscan, ?_, ?_, ?_⟩
  · simp [run, move, stepForward, jump, hseven, Arithmetic.add?, UInt64.size]
  · simp [run, move, stepForward, jump, hseven, Arithmetic.add?]
  · simp [Move.target, hseven]

end TokenStream

end BufferSchema
