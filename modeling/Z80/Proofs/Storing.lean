/-
The plain board as a store.

What has been done to a board is a list of turns: a host loads and pokes bytes, connects ports and
collects what has been written to them, and a processor makes accesses.  Read back as assignments, such a
list says what the board answers (`Recalls`): memory has at each address the byte that was stored there
last, a port drives the byte that it was last connected to, and what has been collected from time to time,
together with what has not been collected yet, is what has been written to ports, in order and each write
once.

A load may be longer than memory.  It goes round, and where it comes by again the later byte counts, as
with any two assignments.
-/
import Z80.Proofs.Assignment
import Z80.Proofs.Board

namespace Z80

namespace Store

variable (s : Store 16)

/-- What a store holds, as a table. -/
def table (address : UInt16) : UInt8 := s.get address.toNat

/-- A byte that is set is assigned to its address, modulo the size of the store. -/
theorem table_set (i : Nat) (v : UInt8) : (s.set i v).table = assigned s.table [(.ofNat i, v)] := by
  funext address
  have hi : i % 1 <<< 16 = (UInt16.ofNat i).toNat := UInt16.toNat_ofNat'.symm
  have haddress : address.toNat % 1 <<< 16 = address.toNat := Nat.mod_eq_of_lt address.toNat_lt
  rw [assigned_singleton, table, get_set, hi, haddress]
  simp only [UInt16.toNat_inj, table]

/-- Bytes that are loaded are assigned to one address after the other. -/
theorem table_load (start : Nat) (bytes : List UInt8) :
    (s.load start bytes).table =
      assigned s.table (bytes.mapIdx fun i v => (UInt16.ofNat (start + i), v)) := by
  induction bytes generalizing s start with
  | nil => rfl
  | cons v bytes ih =>
      have hnext : ∀ i, start + 1 + i = start + (i + 1) := by
        intro i
        omega
      rw [load, ih, table_set, List.mapIdx_cons]
      simp only [hnext, Nat.add_zero]
      exact (assigned_cons ..).symm

/-- Two stores with the same table are the same store. -/
theorem table_inj {s t : Store 16} (h : s.table = t.table) : s = t := by
  apply ext_get
  intro i
  have hi := congrFun h (.ofNat i)
  simp only [table, UInt16.toNat_ofNat'] at hi
  rwa [← get_mod s, ← get_mod t]

end Store

/-! ### What is done to a board -/

/-- What a host does to RAM and to the ports beside it. -/
inductive Board.Use where
  | load (address : UInt16) (bytes : List UInt8)
  | poke (address : UInt16) (value : UInt8)
  /-- A port is made to drive a byte. -/
  | connect (port : UInt16) (value : UInt8)
  /-- What has been written to ports is collected. -/
  | collect

namespace Board

/-- RAM and ports after they have been used. -/
def use : Use → Board Memory → Board Memory
  | .load address bytes, b => b.load address bytes
  | .poke address value, b => b.poke address value
  | .connect port value, b => { b with ports := b.ports.connect port value }
  | .collect, b => { b with ports := b.ports.collect.2 }

/-- One thing that is done to a board, by one side or the other. -/
inductive Turn where
  | host (u : Use)
  /-- The processor makes an access, at some reading of the clock. -/
  | processor (clock : Clock) (a : Access)

/-- The board after a turn. -/
def turn (b : Board Memory) : Turn → Board Memory
  | .host u => b.use u
  | .processor clock a => (Bus.respond b clock a).bus

/-- The board after one turn and the other. -/
def turns (b : Board Memory) (ts : List Turn) : Board Memory := ts.foldl turn b

/-- The writes to ports that a turn hands to the host. -/
def handed (b : Board Memory) : Turn → List (UInt16 × UInt8)
  | .host .collect => b.ports.collect.1.toList
  | _ => []

/-- What the host is handed in the course of turns, one list behind the other. -/
def collected (b : Board Memory) : List Turn → List (UInt16 × UInt8)
  | [] => []
  | t :: ts => b.handed t ++ (b.turn t).collected ts

/-! ### Turns as assignments -/

namespace Turn

/-- The bytes that a turn stores, with their addresses, in order. -/
def stores : Turn → List (UInt16 × UInt8)
  | host (.load address bytes) => bytes.mapIdx fun i v => (.ofNat (address.toNat + i), v)
  | host (.poke address value) | processor _ (.write address value) => [(address, value)]
  | _ => []

/-- The byte that a turn makes a port drive, with the number of the port. -/
def connects : Turn → List (UInt16 × UInt8)
  | host (.connect port value) => [(port, value)]
  | _ => []

/-- The byte that a turn writes to a port, with the number of the port. -/
def outputs : Turn → List (UInt16 × UInt8)
  | processor _ (.output port value) => [(port, value)]
  | _ => []

/-- A turn that writes to a port does nothing else. -/
theorem stores_of_outputs {t : Turn} (h : t.outputs ≠ []) : t.stores = [] ∧ t.connects = [] := by
  cases t with
  | host u => exact absurd rfl h
  | processor clock a =>
      cases a with
      | output port value => exact ⟨rfl, rfl⟩
      | _ => exact absurd rfl h

end Turn

/-- What a turn assigns to memory. -/
theorem table_memory_turn (b : Board Memory) (t : Turn) :
    (b.turn t).memory.table = assigned b.memory.table t.stores := by
  have hset : ∀ address value, (b.memory.set address.toNat value).table =
      assigned b.memory.table [(address, value)] := by
    intro address value
    rw [Store.table_set, UInt16.ofNat_toNat]
  cases t with
  | host u =>
      cases u with
      | load address bytes => exact b.memory.table_load address.toNat bytes
      | poke address value => exact hset address value
      | connect port value => rfl
      | collect => rfl
  | processor clock a =>
      cases a with
      | write address value => exact hset address value
      | read address => rfl
      | input port => rfl
      | output port value => rfl

/-- What a turn assigns to the inputs. -/
theorem table_inputs_turn (b : Board Memory) (t : Turn) :
    (b.turn t).ports.inputs.table = assigned b.ports.inputs.table t.connects := by
  cases t with
  | host u =>
      cases u with
      | connect port value =>
          have hset := b.ports.inputs.table_set port.toNat value
          rwa [UInt16.ofNat_toNat] at hset
      | _ => rfl
  | processor clock a => cases a <;> rfl

/-- A turn hands over what has been written, or leaves it there and may add to it. -/
theorem handed_turn (b : Board Memory) (t : Turn) :
    b.handed t ++ (b.turn t).ports.writes.toList = b.ports.writes.toList ++ t.outputs := by
  cases t with
  | host u =>
      cases u with
      | collect => rfl
      | _ => exact (List.append_nil _).symm
  | processor clock a =>
      cases a with
      | output port value => exact Array.toList_push
      | _ => exact (List.append_nil _).symm

theorem table_memory_turns (b : Board Memory) (ts : List Turn) :
    (b.turns ts).memory.table = assigned b.memory.table (ts.flatMap Turn.stores) :=
  view_foldl (·.memory.table) table_memory_turn b ts

theorem table_inputs_turns (b : Board Memory) (ts : List Turn) :
    (b.turns ts).ports.inputs.table = assigned b.ports.inputs.table (ts.flatMap Turn.connects) :=
  view_foldl (·.ports.inputs.table) table_inputs_turn b ts

/-- No write to a port is lost, and none is collected twice. -/
theorem collected_turns (b : Board Memory) (ts : List Turn) :
    b.collected ts ++ (b.turns ts).ports.writes.toList =
      b.ports.writes.toList ++ ts.flatMap Turn.outputs := by
  induction ts generalizing b with
  | nil => exact (List.append_nil _).symm
  | cons t ts ih =>
      calc
        _ = b.handed t ++ ((b.turn t).collected ts ++ ((b.turn t).turns ts).ports.writes.toList) :=
          List.append_assoc ..
        _ = b.handed t ++ (b.turn t).ports.writes.toList ++ ts.flatMap Turn.outputs := by
          rw [ih, List.append_assoc]
        _ = b.ports.writes.toList ++ (t :: ts).flatMap Turn.outputs := by
          rw [handed_turn, List.flatMap_cons, List.append_assoc]

/-- Turns that assign nothing of a kind can be left out. -/
theorem flatMap_filter_outputs {makes : Turn → List (UInt16 × UInt8)}
    (h : ∀ t : Turn, t.outputs ≠ [] → makes t = []) (ts : List Turn) :
    (ts.filter (·.outputs.isEmpty)).flatMap makes = ts.flatMap makes := by
  induction ts with
  | nil => rfl
  | cons t ts ih =>
      by_cases hquiet : t.outputs = []
      · rw [List.filter_cons, if_pos (List.isEmpty_iff.mpr hquiet), List.flatMap_cons, ih, List.flatMap_cons]
      · rw [List.filter_cons, if_neg (mt List.isEmpty_iff.mp hquiet), ih, List.flatMap_cons, h t hquiet,
          List.nil_append]

/-! ### Together -/

/-- A board answers as the list of turns says, when `taken` is what the host has been handed. -/
structure Recalls (ts : List Turn) (taken : List (UInt16 × UInt8)) (b : Board Memory) : Prop where
  /-- Memory holds what has been stored last, or zero. -/
  peek : ∀ address, peek b address = (latest? (ts.flatMap Turn.stores) address).getD 0
  /-- The processor reads what a host sees, and changes nothing. -/
  read : ∀ clock address, (Bus.respond b clock (.read address)).data = View.peek b address ∧
    (Bus.respond b clock (.read address)).bus = b
  /-- A word is the byte at its address and, above it, the next one; the last address is next to the first. -/
  peekWord : ∀ address, (peekWord b address).toNat =
    (View.peek b address).toNat + 256 * (View.peek b (.ofNat ((address.toNat + 1) % 65536))).toNat
  /-- A port, whose number is two bytes, drives what it has been connected to last, or FF; reading it
  changes nothing. -/
  input : ∀ clock high low,
    (Bus.respond b clock (.input (portAddress high low))).data =
      (latest? (ts.flatMap Turn.connects) (.ofNat (256 * high.toNat + low.toNat))).getD 0xFF ∧
    (Bus.respond b clock (.input (portAddress high low))).bus = b
  /-- If nothing had been written to ports, memory and the inputs would be the same. -/
  outputs_apart :
    (blank.turns (ts.filter (·.outputs.isEmpty))).memory = b.memory ∧
    (blank.turns (ts.filter (·.outputs.isEmpty))).ports.inputs = b.ports.inputs
  /-- What has been handed over and what is still there are the writes to ports, in order. -/
  writes : taken ++ b.ports.writes.toList = ts.flatMap Turn.outputs
  /-- To collect is to be handed all that is still there; no write is left then, and nothing else changes. -/
  collect : b.handed (.host .collect) = b.ports.writes.toList ∧ (b.use .collect).ports.writes = #[] ∧
    (b.use .collect).memory = b.memory ∧ (b.use .collect).ports.inputs = b.ports.inputs

theorem table_blank : blank.memory.table = fun _ => 0 := by
  funext address
  exact Store.get_uniform 16 0 address.toNat

theorem table_unconnected : blank.ports.inputs.table = fun _ => 0xFF := by
  funext port
  exact Store.get_uniform 16 0xFF port.toNat

/--
**A plain board recalls what has been done to it.**  Whatever turns host and processor have taken on a
board that was blank, and in whatever order, it answers as the list of turns says.
-/
theorem turns_recalled (ts : List Turn) : Recalls ts (blank.collected ts) (blank.turns ts) where
  peek address := by
    have htable := congrFun (table_memory_turns blank ts) address
    rwa [table_blank] at htable
  read _ _ := ⟨rfl, rfl⟩
  peekWord address := by
    have hnext : UInt16.ofNat ((address.toNat + 1) % 65536) = address + 1 := by
      apply UInt16.toNat_inj.mp
      simp
    rw [hnext, Z80.peekWord, Word.toNat_ofBytes]
    omega
  input _ high low := by
    have hport : UInt16.ofNat (256 * high.toNat + low.toNat) = portAddress high low := by
      rw [Nat.mul_comm]
      rfl
    have htable := congrFun (table_inputs_turns blank ts) (portAddress high low)
    rw [table_unconnected] at htable
    rw [hport]
    exact ⟨htable, rfl⟩
  outputs_apart := by
    have hstores := flatMap_filter_outputs (fun _ h => (Turn.stores_of_outputs h).1) ts
    have hconnects := flatMap_filter_outputs (fun _ h => (Turn.stores_of_outputs h).2) ts
    constructor
    · apply Store.table_inj
      rw [table_memory_turns, table_memory_turns, hstores]
    · apply Store.table_inj
      rw [table_inputs_turns, table_inputs_turns, hconnects]
  writes := collected_turns blank ts
  collect := ⟨rfl, rfl, rfl, rfl⟩

/-- A load that goes round the end of memory, and writes to ports that are collected in between. -/
example :
    let ts : List Turn := [.host (.load 0xFFFF [0x11, 0x22]), .processor .zero (.output 0x01FE 7),
      .host .collect, .processor .zero (.output 0x02FE 0)]
    Z80.peekWord (blank.turns ts) 0xFFFF = 0x2211 ∧ blank.collected ts = [(0x01FE, 7)] ∧
      (blank.turns ts).ports.writes.toList = [(0x02FE, 0)] :=
  ⟨rfl, rfl, rfl⟩

end Board

end Z80
