import Mathlib.Data.List.Basic
import Mathlib.Data.List.Infix

/-! Paths of names and of steps upwards, resolved without looking at a file system. A directory is the
list of names that lead to it from the root. -/
namespace Paths
variable {α : Type*}

/-- A step to the directory above or to a name in the present one. -/
inductive Step (α : Type*)
  | up
  | name (a : α)

/-- The root is above itself. -/
def step (dir : List α) : Step α → List α
  | .up => dir.dropLast
  | .name a => dir ++ [a]

def walk (dir : List α) (path : List (Step α)) : List α := path.foldl step dir

/-- What a path does from anywhere: it climbs and then enters names. -/
structure Reduced (α : Type*) where
  climbs : ℕ
  names : List α

def Reduced.step (r : Reduced α) : Step α → Reduced α
  | .up =>
    match r.names with
    | [] => ⟨r.climbs + 1,[]⟩
    | names => ⟨r.climbs,names.dropLast⟩
  | .name a => ⟨r.climbs,r.names ++ [a]⟩

def reduce (path : List (Step α)) : Reduced α := path.foldl Reduced.step ⟨0,[]⟩

variable {dir : List α} {path : List (Step α)}

@[simp] theorem walk_nil (dir : List α) : walk dir [] = dir := rfl

theorem walk_append (dir : List α) (path rest : List (Step α)) :
    walk dir (path ++ rest) = walk (walk dir path) rest := List.foldl_append

theorem walk_concat (dir : List α) (path : List (Step α)) (s : Step α) :
    walk dir (path ++ [s]) = step (walk dir path) s := walk_append dir path [s]

/-- A path leads where its reduced form does. -/
theorem walk_eq (dir : List α) (path : List (Step α)) : walk dir path =
    dir.take (dir.length - (reduce path).climbs) ++ (reduce path).names := by
  induction path using List.reverseRecOn with
  | nil => simp [reduce]
  | append_singleton path s ih =>
    have hreduce : reduce (path ++ [s]) = (reduce path).step s := List.foldl_append
    rw [walk_concat,ih,hreduce]
    generalize reduce path = r
    obtain ⟨climbs,names⟩ := r
    cases s with
    | name a => exact List.append_assoc _ _ _
    | up =>
      cases names with
      | nil =>
        change (dir.take (dir.length - climbs) ++ []).dropLast =
          dir.take (dir.length - (climbs + 1)) ++ []
        rw [List.append_nil,List.append_nil,List.dropLast_eq_take,List.take_take,List.length_take]
        congr 1
        omega
      | cons a names => exact List.dropLast_append_of_ne_nil (List.cons_ne_nil a names)

/-- A path stays in the directory where it starts exactly if it enters again what it climbs out of. -/
theorem prefix_walk_iff : dir <+: walk dir path ↔
    dir.drop (dir.length - (reduce path).climbs) <+: (reduce path).names := by
  rw [walk_eq]
  generalize dir.length - (reduce path).climbs = kept
  conv_lhs => lhs; rw [← List.take_append_drop kept dir]
  exact List.prefix_append_right_inj _

end Paths
