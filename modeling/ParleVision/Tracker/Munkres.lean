import Mathlib.Algebra.Order.Ring.Rat
import Mathlib.Data.List.ProdSigma

namespace ParleVision.Tracker

/-- `Matrix<double>`, with exact entries. -/
abbrev Matrix (rows columns : Nat) (α : Type) := Fin rows → Fin columns → α

inductive Mask where
  | NORMAL
  | STAR
  | PRIME
deriving DecidableEq, Repr

abbrev Cell (rows columns : Nat) := Fin rows × Fin columns

def cells (rows columns : Nat) : List (Cell rows columns) :=
  List.product (List.finRange rows) (List.finRange columns)

structure Munkres (rows columns : Nat) where
  matrix : Matrix rows columns ℚ
  mask_matrix : Matrix rows columns Mask
  row_mask : Fin rows → Bool
  col_mask : Fin columns → Bool

/-- The value of `step`, with `saverow` and `savecol` where they are read. -/
inductive Step (rows columns : Nat) where
  | done
  | step1
  | step2
  | step3
  | step4 (saved : Cell rows columns)
  | step5

namespace Munkres
variable {rows columns : Nat} (s : Munkres rows columns)

def setMask (x : Cell rows columns) (mask : Mask) : Munkres rows columns :=
  { s with mask_matrix := fun row col => if (row, col) = x then mask else s.mask_matrix row col }

def find_uncovered_in_matrix (item : ℚ) : Option (Cell rows columns) :=
  (cells rows columns).find? fun x =>
    !s.row_mask x.1 && !s.col_mask x.2 && s.matrix x.1 x.2 == item

def starInRow (row : Fin rows) : Option (Fin columns) :=
  (List.finRange columns).find? fun ncol => s.mask_matrix row ncol == .STAR

def starInColumn (col : Fin columns) : Option (Fin rows) :=
  (List.finRange rows).find? fun nrow => s.mask_matrix nrow col == .STAR

def step1 : Munkres rows columns :=
  (cells rows columns).foldl
    (fun s x =>
      if s.matrix x.1 x.2 = 0 ∧ s.starInColumn x.2 = none ∧ s.starInRow x.1 = none then
        s.setMask x .STAR
      else s) s

def step2 : Munkres rows columns × Step rows columns :=
  let stars := (cells rows columns).filter fun x => s.mask_matrix x.1 x.2 == .STAR
  ({ s with col_mask := fun col => s.col_mask col || stars.any fun x => x.2 == col },
    if stars.length ≥ min rows columns then .done else .step3)

def step3 : Munkres rows columns × Step rows columns :=
  match s.find_uncovered_in_matrix 0 with
  | none => (s, .step5)
  | some x =>
    let s := s.setMask x .PRIME
    match s.starInRow x.1 with
    | some ncol =>
      ({ s with
        row_mask := Function.update s.row_mask x.1 true
        col_mask := Function.update s.col_mask ncol false }, .step3)
    | none => (s, .step4 x)

/-- The loop that constructs the alternating sequence; nothing when the bound on its rounds is
too small. -/
def sequence : Nat → Fin columns → List (Cell rows columns) → Option (List (Cell rows columns))
  | 0, _, _ => none
  | fuel + 1, col, seq =>
    match (List.finRange rows).find? fun row =>
      s.mask_matrix row col == .STAR && decide ((row, col) ∉ seq) with
    | none => some seq
    | some row =>
      let seq := seq ++ [(row, col)]
      match (List.finRange columns).find? fun col =>
        s.mask_matrix row col == .PRIME && decide ((row, col) ∉ seq) with
      | none => some seq
      | some col => sequence fuel col (seq ++ [(row, col)])

def turn (x : Cell rows columns) : Munkres rows columns :=
  match s.mask_matrix x.1 x.2 with
  | .STAR => s.setMask x .NORMAL
  | .PRIME => s.setMask x .STAR
  | .NORMAL => s

def step4 (fuel : Nat) (saved : Cell rows columns) : Option (Munkres rows columns) :=
  match s.sequence fuel saved.2 [saved] with
  | none => none
  | some seq =>
    let s := seq.foldl turn s
    some { s with
      mask_matrix := fun row col =>
        if s.mask_matrix row col = .PRIME then .NORMAL else s.mask_matrix row col
      row_mask := fun _ => false
      col_mask := fun _ => false }

/-- The smallest uncovered entry that is not zero. -/
def smallest : ℚ :=
  (cells rows columns).foldl
    (fun h x =>
      if s.row_mask x.1 = false ∧ s.col_mask x.2 = false ∧
        ((h > s.matrix x.1 x.2 ∧ s.matrix x.1 x.2 ≠ 0) ∨ h = 0) then s.matrix x.1 x.2
      else h) 0

def step5 : Munkres rows columns :=
  let h := s.smallest
  { s with matrix := fun row col =>
    let entry := if s.row_mask row then s.matrix row col + h else s.matrix row col
    if s.col_mask col then entry else entry - h }

/-- The loop of `solve`; nothing when the bound on its rounds is too small. -/
def loop : Nat → Step rows columns → Munkres rows columns → Option (Munkres rows columns)
  | 0, _, _ => none
  | _ + 1, .done, s => some s
  | fuel + 1, .step1, s => loop fuel .step2 s.step1
  | fuel + 1, .step2, s => loop fuel s.step2.2 s.step2.1
  | fuel + 1, .step3, s => loop fuel s.step3.2 s.step3.1
  | fuel + 1, .step4 saved, s =>
    match s.step4 fuel saved with
    | none => none
    | some s => loop fuel .step2 s
  | fuel + 1, .step5, s => loop fuel .step3 s.step5

end Munkres

section
variable {rows columns : Nat}

/-- What `solve` puts for INFINITY, which is nothing here. -/
def highValue (m : Matrix rows columns (Option ℚ)) : ℚ :=
  (cells rows columns).foldl
    (fun highValue x =>
      match m x.1 x.2 with
      | some entry => if entry > highValue then entry else highValue
      | none => highValue) 0 + 1

def finite (m : Matrix rows columns (Option ℚ)) : Matrix rows columns ℚ :=
  fun row col => (m row col).getD (highValue m)

def Munkres.started (matrix : Matrix rows columns ℚ) : Munkres rows columns where
  matrix := matrix
  mask_matrix := fun _ _ => .NORMAL
  row_mask := fun _ => false
  col_mask := fun _ => false

/-- `Munkres::solve`, when its loops end within the bound on their rounds. -/
def solve (fuel : Nat) (m : Matrix rows columns (Option ℚ)) : Option (Matrix rows columns ℚ) :=
  (Munkres.loop fuel .step1 (.started (finite m))).map fun s row col =>
    if s.mask_matrix row col = .STAR then 0 else -1

end

end ParleVision.Tracker
