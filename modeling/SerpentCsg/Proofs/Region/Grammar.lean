import SerpentCsg.Region.Reader

/-! # The Grammar of Region Expressions

  Which token sequences are region expressions, and the region that each of them stands for:

      union        = intersection ('|' intersection)*
      intersection = operand ('&'? operand)*
      operand      = '~' operand | number | '(' union ')'

  An intersection or a union stands for the list of its parts. They are combined to one region
  only where there are two or more of them.
-/

namespace SerpentCsg.Region

/-- One region for some parts: a combination of two or more, and a single part as it is. -/
def combine (make : List Region → Region) : List Region → Region
  | [part] => part
  | parts => make parts

theorem combine_of_two_le {parts : List Region} (make : List Region → Region)
    (h : 2 ≤ parts.length) : combine make parts = make parts := by
  rcases parts with - | ⟨first, - | ⟨second, others⟩⟩
  · simp at h
  · simp at h
  · rfl

@[simp] theorem halfspaces_combine_intersection (parts : List Region) :
    (combine .intersection parts).halfspaces = parts.flatMap halfspaces := by
  rcases parts with - | ⟨first, - | ⟨second, others⟩⟩ <;> simp [combine, halfspaces]

@[simp] theorem halfspaces_combine_union (parts : List Region) :
    (combine .union parts).halfspaces = parts.flatMap halfspaces := by
  rcases parts with - | ⟨first, - | ⟨second, others⟩⟩ <;> simp [combine, halfspaces]

section Contains

variable {K : Type} [Scalar K]

@[simp] theorem contains_combine_intersection (table : Table Nat (Surface K)) (p : Vec3 K)
    (parts : List Region) :
    (combine .intersection parts).contains table p =
      (parts.map fun part => part.contains table p).and := by
  rcases parts with - | ⟨first, - | ⟨second, others⟩⟩ <;> simp [combine, contains]

@[simp] theorem contains_combine_union (table : Table Nat (Surface K)) (p : Vec3 K)
    (parts : List Region) :
    (combine .union parts).contains table p =
      (parts.map fun part => part.contains table p).or := by
  rcases parts with - | ⟨first, - | ⟨second, others⟩⟩ <;> simp [combine, contains]

end Contains

mutual

/-- The tokens are an operand that stands for a region. -/
inductive IsOperand : List Token → Region → Prop where
  | number (h : Halfspace) : IsOperand [.number h] (.halfspace h)
  | complement {ts : List Token} {part : Region} :
      IsOperand ts part → IsOperand (.tilde :: ts) (.complement part)
  | group {ts : List Token} {parts : List Region} :
      IsUnion ts parts → IsOperand (.opening :: (ts ++ [.closing])) (combine .union parts)

/-- The tokens are operands side by side, with or without ampersands between them. -/
inductive IsIntersection : List Token → List Region → Prop where
  | single {ts : List Token} {part : Region} : IsOperand ts part → IsIntersection ts [part]
  | beside {ts us : List Token} {part : Region} {parts : List Region} :
      IsOperand ts part → IsIntersection us parts → IsIntersection (ts ++ us) (part :: parts)
  | ampersand {ts us : List Token} {part : Region} {parts : List Region} :
      IsOperand ts part → IsIntersection us parts →
      IsIntersection (ts ++ .ampersand :: us) (part :: parts)

/-- The tokens are intersections between bars. -/
inductive IsUnion : List Token → List Region → Prop where
  | single {ts : List Token} {parts : List Region} :
      IsIntersection ts parts → IsUnion ts [combine .intersection parts]
  | bar {ts us : List Token} {parts others : List Region} :
      IsIntersection ts parts → IsUnion us others →
      IsUnion (ts ++ .bar :: us) (combine .intersection parts :: others)

end

/-- The tokens are an expression that stands for a region. -/
def IsExpression (ts : List Token) (region : Region) : Prop :=
  ∃ parts, IsUnion ts parts ∧ region = combine .union parts

/-! ### Where operands start -/

/-- An operand starts with a number, a tilde or an opening parenthesis. -/
theorem IsOperand.head {ts : List Token} {r : Region} (h : IsOperand ts r) :
    ∃ t us, ts = t :: us ∧ t ≠ .closing ∧ t ≠ .bar ∧ t ≠ .ampersand := by
  cases h with
  | number h => exact ⟨_, _, rfl, by simp, by simp, by simp⟩
  | complement _ => exact ⟨_, _, rfl, by simp, by simp, by simp⟩
  | group _ => exact ⟨_, _, rfl, by simp, by simp, by simp⟩

theorem IsOperand.length_pos {ts : List Token} {r : Region} (h : IsOperand ts r) :
    0 < ts.length := by
  obtain ⟨t, us, rfl, -⟩ := h.head
  exact Nat.succ_pos us.length

end SerpentCsg.Region
