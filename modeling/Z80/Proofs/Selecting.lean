/-
Selectors of registers, and the bytes behind them.

An opcode selects a register or a pair by a code, and the index register in force says what H, L and HL
mean; `Selector` is the two together.  Behind each selector stand one or two bytes of the register file
(`Selector.cells`), be they kept as bytes or as halves of a word.  Setting a selector assigns to these
bytes and does nothing else (`cell_set`, `unnamed_set`), and what it reads is what they hold, the high byte
first (`bytes_get`).

The laws that one expects of a register file follow from these three facts: what has been set is read back,
the last of two values stays, selectors without a byte in common do not notice each other, and a pair is at all
times composed of its halves.
-/
import Z80.Proofs.Assignment
import Z80.Proofs.Stepping

namespace Z80

/-- A word is known by its bytes. -/
theorem Word.eq_of_halves {w w' : UInt16} (hhigh : high w = high w') (hlow : low w = low w') : w = w' := by
  rw [← ofBytes_high_low w, hhigh, hlow, ofBytes_high_low]

/-- The bytes of the register file that selectors can name, alone or as half of a pair. -/
inductive Cell where
  | a | f | b | c | d | e | h | l
  | ixh | ixl | iyh | iyl
  | sph | spl
deriving DecidableEq, Repr

namespace Cell

/-- The high byte of HL, or of the index register in its place. -/
def upper : Option Index → Cell
  | none => h
  | some .ix => ixh
  | some .iy => iyh

/-- The low byte of HL, or of the index register in its place. -/
def lower : Option Index → Cell
  | none => l
  | some .ix => ixl
  | some .iy => iyl

end Cell

/-- A register or a pair as it is named under an index register, if one is in force. -/
inductive Selector where
  | byte (r : Reg8) (index : Option Index)
  | pair (p : Pair) (index : Option Index)
deriving DecidableEq, Repr

namespace Selector

/-- What a selector holds. -/
def Value : Selector → Type
  | byte .. => UInt8
  | pair .. => UInt16

/-- The bytes behind a selector, the high one first. -/
def cells : Selector → List Cell
  | byte .a _ => [.a]
  | byte .b _ => [.b]
  | byte .c _ => [.c]
  | byte .d _ => [.d]
  | byte .e _ => [.e]
  | byte .h index => [.upper index]
  | byte .l index => [.lower index]
  | byte .ixh _ => [.ixh]
  | byte .ixl _ => [.ixl]
  | byte .iyh _ => [.iyh]
  | byte .iyl _ => [.iyl]
  | pair .bc _ => [.b, .c]
  | pair .de _ => [.d, .e]
  | pair .hl index => [.upper index, .lower index]
  | pair .sp _ => [.sph, .spl]
  | pair .af _ => [.a, .f]
  | pair .ix _ => [.ixh, .ixl]
  | pair .iy _ => [.iyh, .iyl]

/-- The bytes of a value, the high one first. -/
def bytes : (s : Selector) → s.Value → List UInt8
  | byte .., v => [v]
  | pair .., w => [Word.high w, Word.low w]

/-- What setting a selector assigns to the bytes behind it. -/
def assigns (s : Selector) (v : s.Value) : List (Cell × UInt8) := s.cells.zip (s.bytes v)

end Selector

/-- A selector and what it is set to. -/
abbrev Setting := (s : Selector) × s.Value

namespace Registers

/-- What a selector reads. -/
def get (r : Registers) : (s : Selector) → s.Value
  | .byte x index => r.get8 (x.indexed index)
  | .pair p index => r.get16 (p.indexed index)

/-- The register file after a selector has been set. -/
def set (r : Registers) : (s : Selector) → s.Value → Registers
  | .byte x index, v => r.set8 (x.indexed index) v
  | .pair p index, w => r.set16 (p.indexed index) w

/-- The register file after selectors have been set, one after the other. -/
def sets (r : Registers) (settings : List Setting) : Registers :=
  settings.foldl (fun r setting => r.set setting.1 setting.2) r

/-- The byte in a cell. -/
def cell (r : Registers) : Cell → UInt8
  | .a => r.main.a
  | .f => r.main.f
  | .b => r.main.b
  | .c => r.main.c
  | .d => r.main.d
  | .e => r.main.e
  | .h => r.main.h
  | .l => r.main.l
  | .ixh => Word.high r.ix
  | .ixl => Word.low r.ix
  | .iyh => Word.high r.iy
  | .iyl => Word.low r.iy
  | .sph => Word.high r.sp
  | .spl => Word.low r.sp

/-- The registers that no selector names, beside zeros. -/
def unnamed (r : Registers) : Registers := { r with main := .zero, ix := 0, iy := 0, sp := 0 }

/-- The register file with other bytes in its cells. -/
def filled (r : Registers) (cell : Cell → UInt8) : Registers :=
  { r with
    main := ⟨cell .a, cell .f, cell .b, cell .c, cell .d, cell .e, cell .h, cell .l⟩
    ix := Word.ofBytes (cell .ixh) (cell .ixl)
    iy := Word.ofBytes (cell .iyh) (cell .iyl)
    sp := Word.ofBytes (cell .sph) (cell .spl) }

end Registers

/-! ### Names as cells -/

/-- The byte behind a register. -/
def Reg8.cell : Reg8 → Cell
  | a => .a
  | b => .b
  | c => .c
  | d => .d
  | e => .e
  | h => .h
  | l => .l
  | ixh => .ixh
  | ixl => .ixl
  | iyh => .iyh
  | iyl => .iyl

namespace Pair

/-- The byte behind the upper half of a pair. -/
def upper : Pair → Cell
  | bc => .b
  | de => .d
  | hl => .h
  | sp => .sph
  | af => .a
  | ix => .ixh
  | iy => .iyh

/-- The byte behind the lower half of a pair. -/
def lower : Pair → Cell
  | bc => .c
  | de => .e
  | hl => .l
  | sp => .spl
  | af => .f
  | ix => .ixl
  | iy => .iyl

/-- The halves of a pair, if they have names of their own. -/
def halves? : Pair → Option (Reg8 × Reg8)
  | bc => some (.b, .c)
  | de => some (.d, .e)
  | hl => some (.h, .l)
  | ix => some (.ixh, .ixl)
  | iy => some (.iyh, .iyl)
  | sp | af => none

end Pair

namespace Registers

variable (r : Registers)

theorem get8_eq (x : Reg8) : r.get8 x = r.cell x.cell := by
  cases x <;> rfl

theorem get16_eq (p : Pair) : r.get16 p = Word.ofBytes (r.cell p.upper) (r.cell p.lower) := by
  cases p with
  | ix => exact (Word.ofBytes_high_low _).symm
  | iy => exact (Word.ofBytes_high_low _).symm
  | sp => exact (Word.ofBytes_high_low _).symm
  | _ => rfl

theorem cell_set8 (x : Reg8) (v : UInt8) : (r.set8 x v).cell = assigned r.cell [(x.cell, v)] := by
  funext cell
  rw [assigned_singleton]
  -- the halves of an index register are cut out of a word, so for them there is something to compute
  cases x <;> cases cell <;> simp [set8, Registers.cell, Reg8.cell]

theorem cell_set16 (p : Pair) (w : UInt16) :
    (r.set16 p w).cell = assigned r.cell [(p.upper, Word.high w), (p.lower, Word.low w)] := by
  funext cell
  cases p <;> cases cell <;> rfl

theorem unnamed_set8 (x : Reg8) (v : UInt8) : (r.set8 x v).unnamed = r.unnamed := by
  cases x <;> rfl

theorem unnamed_set16 (p : Pair) (w : UInt16) : (r.set16 p w).unnamed = r.unnamed := by
  cases p <;> rfl

end Registers

namespace Selector

theorem cells_byte (x : Reg8) (index : Option Index) : (byte x index).cells = [(x.indexed index).cell] := by
  rcases index with - | (- | -) <;> cases x <;> rfl

theorem cells_pair (p : Pair) (index : Option Index) :
    (pair p index).cells = [(p.indexed index).upper, (p.indexed index).lower] := by
  rcases index with - | (- | -) <;> cases p <;> rfl

theorem cells_nodup (s : Selector) : s.cells.Nodup := by
  cases s with
  | byte x index =>
      rw [cells_byte]
      exact List.pairwise_singleton _ _
  | pair p index =>
      rw [cells_pair]
      cases p.indexed index <;> decide

theorem length_cells (s : Selector) (v : s.Value) : s.cells.length = (s.bytes v).length := by
  cases s with
  | byte x index =>
      rw [cells_byte]
      rfl
  | pair p index =>
      rw [cells_pair]
      rfl

/-- A value is known by its bytes. -/
theorem bytes_inj {s : Selector} {v v' : s.Value} (h : s.bytes v = s.bytes v') : v = v' := by
  cases s with
  | byte x index => exact (List.cons.inj h).1
  | pair p index =>
      obtain ⟨hhigh, hlow⟩ := List.cons.inj h
      exact Word.eq_of_halves hhigh (List.cons.inj hlow).1

theorem mem_of_mem_assigns {s : Selector} {v : s.Value} {a : Cell × UInt8} (h : a ∈ s.assigns v) :
    a.1 ∈ s.cells := (List.of_mem_zip h).1

end Selector

namespace Registers

variable (r : Registers) (s : Selector)

/-! ### Setting and reading -/

/-- Setting a selector assigns to the bytes behind it. -/
theorem cell_set (v : s.Value) : (r.set s v).cell = assigned r.cell (s.assigns v) := by
  cases s with
  | byte x index =>
      rw [Selector.assigns, Selector.cells_byte]
      exact r.cell_set8 (x.indexed index) v
  | pair p index =>
      rw [Selector.assigns, Selector.cells_pair]
      exact r.cell_set16 (p.indexed index) v

/-- What no selector names stays. -/
theorem unnamed_set (v : s.Value) : (r.set s v).unnamed = r.unnamed := by
  cases s with
  | byte x index => exact r.unnamed_set8 _ v
  | pair p index => exact r.unnamed_set16 _ v

/-- What is read is what the bytes behind the selector hold. -/
theorem bytes_get : s.bytes (r.get s) = s.cells.map r.cell := by
  cases s with
  | byte x index =>
      rw [Selector.cells_byte]
      exact congrArg ([·]) (r.get8_eq (x.indexed index))
  | pair p index =>
      show [Word.high (r.get16 (p.indexed index)), Word.low (r.get16 (p.indexed index))] = _
      rw [Selector.cells_pair, get16_eq, Word.high_ofBytes, Word.low_ofBytes]
      rfl

theorem filled_unnamed : r.unnamed.filled r.cell = r := by
  simp only [filled, unnamed, cell, Word.ofBytes_high_low]

/-- A register file is known by its cells and the rest. -/
theorem ext_cell {r r' : Registers} (hcell : r.cell = r'.cell) (hunnamed : r.unnamed = r'.unnamed) :
    r = r' := by
  rw [← filled_unnamed r, hcell, hunnamed, filled_unnamed]

/-- A byte behind no part of a selector stays. -/
theorem cell_set_of_not_mem {k : Cell} (h : k ∉ s.cells) (v : s.Value) : (r.set s v).cell k = r.cell k := by
  rw [cell_set]
  exact assigned_of_forall_ne r.cell fun a ha heq => h (heq ▸ Selector.mem_of_mem_assigns ha)

/-- The bytes behind a selector are those of the value that it has been set to. -/
theorem map_cell_set (v : s.Value) : s.cells.map (r.set s v).cell = s.bytes v := by
  rw [cell_set]
  exact map_assigned_zip r.cell s.cells_nodup (s.length_cells v)

/-- What has a value in the bytes behind a selector and is the same elsewhere has had the selector set. -/
theorem eq_set {r r' : Registers} {s : Selector} {v : s.Value} (hbytes : s.cells.map r'.cell = s.bytes v)
    (hcell : ∀ k ∉ s.cells, r'.cell k = r.cell k) (hunnamed : r'.unnamed = r.unnamed) : r' = r.set s v := by
  refine ext_cell (funext fun k => ?_) (hunnamed.trans (r.unnamed_set s v).symm)
  by_cases hk : k ∈ s.cells
  · have hmap : s.cells.map r'.cell = s.cells.map (r.set s v).cell := hbytes.trans (r.map_cell_set s v).symm
    exact List.map_inj_left.mp hmap k hk
  · rw [hcell k hk, cell_set_of_not_mem r s hk]

theorem get_set (v : s.Value) : (r.set s v).get s = v := by
  apply Selector.bytes_inj
  rw [bytes_get, map_cell_set]

theorem set_get : r.set s (r.get s) = r :=
  (eq_set (r.bytes_get s).symm (fun _ _ => rfl) rfl).symm

theorem set_set (v v' : s.Value) : (r.set s v).set s v' = r.set s v' := by
  refine eq_set ?_ (fun k hk => ?_) ?_
  · exact map_cell_set _ s v'
  · rw [cell_set_of_not_mem _ s hk, cell_set_of_not_mem r s hk]
  · rw [unnamed_set, unnamed_set]

section Disjoint

variable {s s' : Selector}

theorem get_set_of_disjoint (h : ∀ k ∈ s.cells, k ∉ s'.cells) (v : s.Value) :
    (r.set s v).get s' = r.get s' := by
  apply Selector.bytes_inj
  rw [bytes_get, bytes_get]
  refine List.map_inj_left.mpr fun k hk => ?_
  exact r.cell_set_of_not_mem s (fun hmem => h k hmem hk) v

theorem set_comm (h : ∀ k ∈ s.cells, k ∉ s'.cells) (v : s.Value) (v' : s'.Value) :
    (r.set s v).set s' v' = (r.set s' v').set s v := by
  apply ext_cell
  · rw [cell_set, cell_set, cell_set, cell_set]
    refine assigned_comm r.cell fun a ha b hb heq => ?_
    exact h a.1 (Selector.mem_of_mem_assigns ha) (heq ▸ Selector.mem_of_mem_assigns hb)
  · rw [unnamed_set, unnamed_set, unnamed_set, unnamed_set]

end Disjoint

/-- Setting selectors one after the other assigns to the bytes behind them, in order. -/
theorem cell_sets (settings : List Setting) :
    (r.sets settings).cell = assigned r.cell (settings.flatMap fun setting => setting.1.assigns setting.2) :=
  view_foldl cell (fun r setting => r.cell_set setting.1 setting.2) r settings

/-- A pair is composed of its halves, under whatever index register. -/
theorem get16_halves {p : Pair} {high low : Reg8} (h : p.halves? = some (high, low)) (index : Option Index) :
    r.get16 (p.indexed index) = Word.ofBytes (r.get8 (high.indexed index)) (r.get8 (low.indexed index)) := by
  rw [get16_eq, get8_eq, get8_eq]
  cases p <;> cases h <;> rcases index with - | (- | -) <;> rfl

/-! ### Counting fetches -/

theorem toNat_refresh (n : Nat) : (r.refresh n).r.toNat = r.r.toNat / 128 * 128 + (r.r.toNat + n) % 128 := by
  have hlt := r.r.toNat_lt
  rw [refresh, UInt8.toNat_ofNat']
  omega

/-- Only the count modulo 128 matters. -/
theorem refresh_mod (n : Nat) : r.refresh (n % 128) = r.refresh n := by
  have hcount : (r.r.toNat + n % 128) % 128 = (r.r.toNat + n) % 128 := by omega
  rw [refresh, refresh, hcount]

/-! ### Together -/

/-- What one expects of reading and setting the registers of a register file. -/
structure Lawful (r : Registers) : Prop where
  get_set : ∀ s v, (r.set s v).get s = v
  set_get : ∀ s, r.set s (r.get s) = r
  set_set : ∀ s v v', (r.set s v).set s v' = r.set s v'
  /-- Setting a selector changes no byte but those behind it, -/
  cell_set : ∀ s v, ∀ k ∉ s.cells, (r.set s v).cell k = r.cell k
  /-- and none of the registers that have no selector. -/
  unnamed_set : ∀ s v, (r.set s v).unnamed = r.unnamed
  /-- Selectors without a byte in common do not notice each other. -/
  get_set_of_disjoint : ∀ s s' : Selector, (∀ k ∈ s.cells, k ∉ s'.cells) → ∀ v,
    (r.set s v).get s' = r.get s'
  set_comm : ∀ s s' : Selector, (∀ k ∈ s.cells, k ∉ s'.cells) → ∀ v v',
    (r.set s v).set s' v' = (r.set s' v').set s v
  /-- However often selectors have been set, a byte is what it has been set to last, -/
  cell_sets : ∀ settings k, (r.sets settings).cell k =
    (latest? (settings.flatMap fun setting => setting.1.assigns setting.2) k).getD (r.cell k)
  /-- a selector reads the bytes behind it, the high one first, -/
  bytes_get : ∀ settings (s : Selector),
    s.bytes ((r.sets settings).get s) = s.cells.map (r.sets settings).cell
  /-- and a pair is composed of its halves. -/
  get16_halves : ∀ settings (p : Pair) high low index, p.halves? = some (high, low) →
    (r.sets settings).get16 (p.indexed index) =
      Word.ofBytes ((r.sets settings).get8 (high.indexed index)) ((r.sets settings).get8 (low.indexed index))
  /-- Fetches are counted modulo 128, and in one go as in two. -/
  refresh_refresh : ∀ m n, (r.refresh m).refresh n = r.refresh ((m + n) % 128)
  refresh_low : ∀ n, (r.refresh n).r.toNat % 128 = (r.r.toNat + n) % 128
  /-- Counting leaves bit 7 alone, and all other registers. -/
  refresh_high : ∀ n, (r.refresh n).r.toNat.testBit 7 = r.r.toNat.testBit 7
  refresh_frame : ∀ n, { r.refresh n with r := r.r } = r

/--
**The register file is lawful.**  What has been set is read back and nothing else has changed, for each
register and pair and under each index register, however it is kept.
-/
theorem selectors_lawful (r : Registers) : r.Lawful where
  get_set := r.get_set
  set_get := r.set_get
  set_set := r.set_set
  cell_set s v _ hk := r.cell_set_of_not_mem s hk v
  unnamed_set := r.unnamed_set
  get_set_of_disjoint _ _ h := r.get_set_of_disjoint h
  set_comm _ _ h := r.set_comm h
  cell_sets settings k := congrFun (r.cell_sets settings) k
  bytes_get settings := (r.sets settings).bytes_get
  get16_halves settings _ _ _ index h := (r.sets settings).get16_halves h index
  refresh_refresh m n := by rw [refresh_refresh, refresh_mod]
  refresh_low n := by
    rw [toNat_refresh]
    omega
  refresh_high n := by
    have hseven : ∀ k : Nat, k.testBit 7 = decide (k / 128 % 2 = 1) := by
      intro k
      exact Nat.testBit_eq_decide_div_mod_eq
    have hdiv : (r.refresh n).r.toNat / 128 = r.r.toNat / 128 := by
      rw [toNat_refresh]
      omega
    rw [hseven, hseven, hdiv]
  refresh_frame _ := rfl

/-- H behind a prefix is the upper half of IX and no part of HL. -/
theorem selectors_lawful_prefixed :
    (∀ k ∈ (Selector.byte .h (some .ix)).cells, k ∉ (Selector.pair .hl none).cells) ∧
      Pair.halves? .hl = some (.h, .l) ∧
      let r := zero.set (.byte .h (some .ix)) (0x12 : UInt8)
      r.get16 .hl = 0 ∧ r.get16 .ix = Word.ofBytes 0x12 0x00 := by
  have hlawful := zero.selectors_lawful
  refine ⟨by decide, rfl, ?_, ?_⟩
  · exact hlawful.get_set_of_disjoint (.byte .h (some .ix)) (.pair .hl none) (by decide) (0x12 : UInt8)
  · exact hlawful.get16_halves [⟨.byte .h (some .ix), (0x12 : UInt8)⟩] .hl .h .l (some .ix) rfl

end Registers

end Z80
