/-
  File:      Mh1903/Frame/Board.lean
  Subject:   THE BOARD'S PARTITION TABLE: its partitions are cut at sectors, share no address, and
             each is found under its name.
-/
import Mh1903.Frame.Nor
import Mh1903.Frame.Upgrade

namespace Mh1903

open Library

/-- The board's table is in force. -/
def Env.OnBoard (env : Env) : Prop := env.partitionTableDef = falPartTable

instance (env : Env) : Decidable env.OnBoard :=
  inferInstanceAs (Decidable (env.partitionTableDef = falPartTable))

variable {env : Env}

theorem Env.board_onBoard : Env.board.OnBoard := rfl

theorem Env.OnBoard.table (h : env.OnBoard) : env.partitionTable = falPartTable := by
  unfold Env.partitionTable
  rw [h]
  decide

/-- Every line of the table is cut at sectors inside the device. -/
theorem falPartTable_ok : ∀ p ∈ falPartTable, p.Ok := by
  have h : ∀ p ∈ falPartTable, falFlashDeviceFind p.flashName = true ∧ p.offset % 4096 = 0 ∧
      p.len % 4096 = 0 ∧ p.offset + p.len ≤ mhFlashSize := by decide
  intro p hp
  obtain ⟨h1, h2, h3, h4⟩ := h p hp
  exact ⟨h1, h2, h3, h4⟩

theorem Env.OnBoard.tableOk (h : env.OnBoard) : TableOk env := by
  intro p hp
  rw [h.table] at hp
  exact falPartTable_ok p hp

/-- Lookup on the board. -/
theorem Env.OnBoard.find (h : env.OnBoard) (name : List Byte) :
    falPartitionFind env name = falPartTable.find? fun p => rtStrcmp name (p.name ++ [0]) == 0 := by
  unfold falPartitionFind
  rw [h.table]

/-- Two environments of the board find the same. -/
theorem Env.OnBoard.find_eq {env' : Env} (h : env.OnBoard) (h' : env'.OnBoard)
    (name : List Byte) : falPartitionFind env name = falPartitionFind env' name := by
  rw [h.find, h'.find]

/-- The partitions lie one after the other: different ones share no address. -/
theorem falPartTable_disjoint {p q : FalPartition} (hp : p ∈ falPartTable) (hq : q ∈ falPartTable)
    (hne : p ≠ q) {a : Nat} (ha : p.Covers a) : ¬ q.Covers a := by
  have h : ∀ p ∈ falPartTable, ∀ q ∈ falPartTable, p ≠ q →
      p.base + p.len ≤ q.base ∨ q.base + q.len ≤ p.base := by decide
  have := h p hp q hq hne
  unfold FalPartition.Covers at *
  omega

theorem falPartitionFind_mem (h : env.OnBoard) {name : List Byte} {p : FalPartition}
    (hp : falPartitionFind env name = some p) : p ∈ falPartTable := by
  rw [h.find] at hp
  exact List.mem_of_find?_eq_some hp

/-- Every partition of the board is found under its name. -/
theorem Env.OnBoard.find_name (h : env.OnBoard) {p : FalPartition} (hp : p ∈ falPartTable) :
    falPartitionFind env p.name = some p := by
  have hall : ∀ p ∈ falPartTable,
      falPartTable.find? (fun q => rtStrcmp p.name (q.name ++ [0]) == 0) = some p := by
    decide +kernel
  rw [h.find]
  exact hall p hp

end Mh1903
