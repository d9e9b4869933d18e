import SerpentCsg.Draft.Cells

/-! # Formulas of Cells

  The structure of a surface expression, and what it says about a point:

      expression = term (':' term)*
      term       = factor factor*
      factor     = '#' factor | surface | '(' expression ')'

  So `#` binds tightest and `:` loosest. A formula is evaluated directly, point by point, without
  any region in between.
-/

namespace SerpentCsg

namespace Card

/-- A surface expression with its structure. -/
inductive Formula where
  | surface (negative : Bool) (name : String)
  | complement (part : Formula)
  | intersection (left right : Formula)
  | union (left right : Formula)
  deriving Repr, DecidableEq

/-- A formula holds, where it is known which sides of which surfaces do. -/
def Formula.holds (side : Bool → String → Bool) : Formula → Bool
  | surface negative name => side negative name
  | complement part => !part.holds side
  | intersection left right => left.holds side && right.holds side
  | union left right => left.holds side || right.holds side

mutual

/-- The tokens are a surface, a complement or a group. -/
inductive IsFactor : List CellToken → Formula → Prop where
  | surface (negative : Bool) (name : String) :
      IsFactor [.surface negative name] (.surface negative name)
  | complement {ts : List CellToken} {f : Formula} :
      IsFactor ts f → IsFactor (.complement :: ts) (.complement f)
  | group {ts : List CellToken} {f : Formula} :
      IsFormula ts f → IsFactor (.opening :: (ts ++ [.closing])) f

/-- The tokens are factors side by side. -/
inductive IsTerm : List CellToken → Formula → Prop where
  | single {ts : List CellToken} {f : Formula} : IsFactor ts f → IsTerm ts f
  | beside {ts us : List CellToken} {f g : Formula} :
      IsFactor ts f → IsTerm us g → IsTerm (ts ++ us) (.intersection f g)

/-- The tokens are terms between colons: a whole expression. -/
inductive IsFormula : List CellToken → Formula → Prop where
  | single {ts : List CellToken} {f : Formula} : IsTerm ts f → IsFormula ts f
  | union {ts us : List CellToken} {f g : Formula} :
      IsTerm ts f → IsFormula us g → IsFormula (ts ++ .union :: us) (.union f g)

end

end Card

namespace Draft

open Card (CellToken)

variable {K : Type}

/-- A token can be put into numbers: a name stands for one surface or for several. -/
def Resolves (d : Draft K) : CellToken → Prop
  | .surface _ name => ∃ entry, d.entries.find? name = some entry ∧ entry ≠ .infinite
  | _ => True

/-- A surface is one of those that a name stands for. -/
def Named (d : Draft K) (id : Nat) : Prop :=
  ∃ name entry, d.entries.find? name = some entry ∧ id ∈ entry.surfaces

/-- The numbers that surface names stand for are numbers of 32 bits. -/
def EntriesFit (d : Draft K) : Prop := ∀ id, d.Named id → id ≤ Text.max32

variable [Scalar K]

/-- A point is on a side of what a name stands for: of a surface, by the sign of its value; of a
    composite, on the negative side if it is on the inner side of every face, and on the positive
    side otherwise. -/
def onSide (d : Draft K) (p : Vec3 K) (negative : Bool) (name : String) : Bool :=
  match d.entries.find? name with
  | some (.primitive id) =>
    match d.surfaces.find? id with
    | some surface => if negative then surface.value p < 0 else 0 ≤ surface.value p
    | none => false
  | some (.composite faces) =>
    let inside := faces.inside.all fun h => h.contains d.surfaces p
    if negative then inside else !inside
  | _ => false

end Draft

end SerpentCsg
