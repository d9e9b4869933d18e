import SerpentCsg.Card.Expression
import SerpentCsg.Draft.Basic
import SerpentCsg.Region.Reader

/-! # Working in Cell Cards

  Everything about a cell that can be told from its card and the names declared so far is settled
  before the draft is changed. After that an outside cell marks its surfaces with boundary
  conditions, the surface expression is put into numbers and read as a region, and the
  cell is registered.
-/

namespace SerpentCsg

open Card (CellCard CellToken FillWord)

/-- A cell whose card has been read and whose filling is settled. -/
structure CellPlan where
  card : CellCard
  fill : Fill
  /-- The surface expression. -/
  tokens : List CellToken
  deriving Repr

namespace Draft

variable {K : Type}

/-- The material name that stands for nothing. -/
def voidName : String := "void"

/-- What is in a cell. Materials must be in the library, and a cell is not filled with the root
    universe or with its own. -/
def fillOf (d : Draft K) (card : CellCard) : Except Fault Fill :=
  match card.fill with
  | .outside => .ok .outside
  | .material name =>
    if name = voidName then .ok .void
    else if d.materials.contains name then .ok (.material name)
    else .error (.unresolved .material name)
  | .universe name =>
    if name = d.root ∨ name = card.parent then
      .error (.forbiddenFill card.name card.parent name)
    else .ok (.universe name)

/-- The expression is nothing but the infinite surface. -/
def coversEverything (d : Draft K) (tokens : List CellToken) : Bool :=
  match tokens with
  | [.surface _ name] => d.entries.find? name == some .infinite
  | _ => false

/-- What is settled about a cell before the draft is changed. -/
def planCell (d : Draft K) (text : String) : Except Fault CellPlan :=
  match Card.readCell text.toList with
  | none => .error (.unreadableCell text)
  | some card =>
    match d.fillOf card with
    | .error fault => .error fault
    | .ok fill =>
      if d.cells.contains card.name then .error (.duplicate .cell card.name)
      else
        match Card.readExpression card.expression.toList with
        | none => .error (.unreadableExpression card.name card.expression)
        | some [] => .error (.noSurfaces card.name)
        | some tokens =>
          if d.coversEverything tokens && fill == .outside then
            .error (.outsideEverywhere card.name)
          else .ok ⟨card, fill, tokens⟩

/-! ### Boundary conditions -/

/-- The draft with the boundary condition of a surface set. -/
def markSurface (d : Draft K) (id : Nat) : Draft K :=
  { d with
    surfaces := d.surfaces.modify id fun s =>
      { s with boundary := Boundary.choose d.boundaries s.planeAxis? } }

/-- Numbers of all surfaces that an expression names. -/
def surfacesNamed (d : Draft K) (tokens : List CellToken) : List Nat :=
  tokens.flatMap fun
    | .surface _ name => d.surfacesOf name
    | _ => []

/-- The draft with the boundary condition set on every surface that an expression names. -/
def markSurfaces (d : Draft K) (tokens : List CellToken) : Draft K :=
  (d.surfacesNamed tokens).foldl markSurface d

/-! ### Regions -/

/-- The region expression of a surface on one of its sides. The outside of a composite is the
    complement of its inside. -/
def entryText (cell : String) (negative : Bool) : SurfaceEntry → Except Fault String
  | .primitive id => .ok ((if negative then "-" else "+") ++ id.repr)
  | .composite faces =>
    .ok ((if negative then "(" else "~(") ++ faces.region.text ++ ")")
  | .infinite => .error (.infiniteAmongOthers cell)

/-- The region expression of a token. -/
def tokenText (d : Draft K) (cell : String) : CellToken → Except Fault String
  | .opening => .ok "("
  | .closing => .ok ")"
  | .union => .ok "|"
  | .complement => .ok "~"
  | .surface negative name =>
    match d.entries.find? name with
    | some entry => entryText cell negative entry
    | none => .error (.unresolved .surface name)

/-- A surface expression as a region expression. -/
def regionText (d : Draft K) (cell : String) (tokens : List CellToken) : Except Fault String :=
  (tokens.mapM (d.tokenText cell)).map (" ".intercalate ·)

/-- The region of a surface expression. -/
def regionOf (d : Draft K) (cell : String) (tokens : List CellToken) : Except Fault Region :=
  (d.regionText cell tokens).bind Region.ofExpression

/-! ### Registration -/

/-- The draft with the universe that fills a cell. -/
def ensureFill (d : Draft K) : Fill → Draft K
  | .universe name => d.ensureUniverse name
  | _ => d

/-- The draft with a planned cell of a given region. -/
def registerCell (d : Draft K) (plan : CellPlan) (region : Option Region) : Outcome K :=
  let (d, id) := (d.ensureFill plan.fill).reserveCellId plan.card.name
  .ofStep d (d.addCell
    { id, name := plan.card.name, parent := plan.card.parent, fill := plan.fill, region })

/-- The draft with a planned cell. -/
def addPlannedCell (d : Draft K) (plan : CellPlan) : Outcome K :=
  if d.coversEverything plan.tokens then d.registerCell plan none
  else
    let d := if plan.fill == .outside then d.markSurfaces plan.tokens else d
    match d.regionOf plan.card.name plan.tokens with
    | .error fault => .stopped d fault
    | .ok region => d.registerCell plan (some region)

/-- The draft with a cell card. -/
def addCellCard (d : Draft K) (text : String) : Outcome K :=
  match d.planCell text with
  | .error fault => .stopped d fault
  | .ok plan => d.addPlannedCell plan

end Draft

end SerpentCsg
