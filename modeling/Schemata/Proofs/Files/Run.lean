import Schemata.Proofs.Files.Directories

/-! Commands on a tree of files: the answer, and the tree that is left. -/
namespace Schemata.Files

open Schemata.Path

namespace Tree

variable {α β : Type} {t : Tree}

/-- What an action answers, and what it leaves behind. -/
def run (t : Tree) (action : StateM Tree α) : α × Tree := action t

theorem run_pure (t : Tree) (a : α) : t.run (pure a) = (a, t) := rfl

theorem run_bind (t : Tree) (first : StateM Tree α) (next : α → StateM Tree β) :
    t.run (first >>= next) = (t.run first).2.run (next (t.run first).1) := rfl

theorem run_holds (t : Tree) (path : String) :
    t.run (Access.holds path) = (t.holds path.toList, t) := rfl

theorem run_read (t : Tree) (path : String) :
    t.run (Access.read path) = (t.readText path.toList, t) := rfl

theorem run_write (t : Tree) (path text : String) :
    t.run (Access.write path text) = t.writeText path.toList text := rfl

theorem run_makeDirectories (t : Tree) (path : String) :
    t.run (Access.makeDirectories path) = t.makeDirectories path.toList := rfl

theorem content?_put {place : Place} (inside : place ≠ []) (content : ByteArray) (q : Place) :
    (t.put place (.file content)).content? q = if q = place then some content else t.content? q := by
  by_cases same : q = place
  · rw [if_pos same, content?, node?_put inside, if_pos same]
  · rw [if_neg same, content?, node?_put inside, if_neg same]
    rfl

theorem writeText_content? (t : Tree) (path : List Char) (text : String) :
    (∃ failure, t.writeText path text = (.error failure, t)) ∨
      ∃ u, t.writeText path text = (.ok (), u) ∧ ∀ q, u.content? q =
        if q = location path then some text.toUTF8 else t.content? q := by
  unfold writeText
  cases written : t.write path text.toUTF8 with
  | error failure => exact .inl ⟨failure, rfl⟩
  | ok u =>
    obtain ⟨rfl, notDirectory⟩ := write_ok written
    have inside : location path ≠ [] := fun root => notDirectory (root ▸ node?_root t)
    exact .inr ⟨_, rfl, content?_put inside _⟩

end Tree

/-- The directory that a file is to be written into, as it is made and reported. -/
def parent (path : String) : String := String.ofList ((directory? path.toList).getD [])

/-- A message on a file that could not be written. -/
def Unwritable (path message : String) : Prop :=
  ∃ failure : Failure,
    message = "failed to create " ++ parent path ++ ": " ++ failure.message ∨
      message = "failed to write " ++ path ++ ": " ++ failure.message

/-- Makes the directory of a file, unless that is the place where one is. -/
def enterParent {m : Type → Type} [Monad m] [Access m] (path : String) :
    m (Except Failure Unit) :=
  if (parent path).isEmpty then pure (.ok ()) else Access.makeDirectories (parent path)

theorem writeWithin_eq {m : Type → Type} [Monad m] [Access m] (path text : String) :
    (writeWithin path text : m _) = (do
      match ← enterParent path with
      | .error failure =>
        pure (.error ("failed to create " ++ parent path ++ ": " ++ failure.message))
      | .ok () =>
        match ← Access.write path text with
        | .error failure => pure (.error ("failed to write " ++ path ++ ": " ++ failure.message))
        | .ok () => pure (.ok ())) := by
  unfold writeWithin enterParent parent
  dsimp only
  split <;> rfl

theorem run_writeWithin (t : Tree) (path text : String) :
    t.run (writeWithin path text) =
      match t.run (enterParent path) with
      | (.error failure, u) =>
        (.error ("failed to create " ++ parent path ++ ": " ++ failure.message), u)
      | (.ok (), u) =>
        match u.writeText path.toList text with
        | (.error failure, v) =>
          (.error ("failed to write " ++ path ++ ": " ++ failure.message), v)
        | (.ok (), v) => (.ok (), v) := by
  rw [writeWithin_eq, Tree.run_bind]
  rcases t.run (enterParent path) with ⟨made | made, u⟩
  · rfl
  · dsimp only
    rw [Tree.run_bind, Tree.run_write]
    rcases u.writeText path.toList text with ⟨written | written, v⟩ <;> rfl

theorem enterParent_content? (t : Tree) (path : String) (q : Place) :
    (t.run (enterParent path)).2.content? q = t.content? q := by
  unfold enterParent
  split
  · rfl
  · exact Tree.makeDirectories_content? _ _ q

/-- Writing into a file changes that file, or fails without changing any. -/
theorem writeWithin_content? (t : Tree) (path text : String) :
    (∃ message u, t.run (writeWithin path text) = (.error message, u) ∧ Unwritable path message ∧
      ∀ q, u.content? q = t.content? q) ∨
    ∃ u, t.run (writeWithin path text) = (.ok (), u) ∧ ∀ q, u.content? q =
      if q = location path.toList then some text.toUTF8 else t.content? q := by
  have kept := enterParent_content? t path
  rw [run_writeWithin]
  cases entered : t.run (enterParent path) with
  | mk made u =>
    rw [entered] at kept
    cases made with
    | error failure => exact .inl ⟨_, u, rfl, ⟨failure, .inl rfl⟩, kept⟩
    | ok =>
      dsimp only at kept ⊢
      rcases Tree.writeText_content? u path.toList text with
        ⟨failure, failed⟩ | ⟨v, written, content⟩
      · rw [failed]
        exact .inl ⟨_, u, rfl, ⟨failure, .inr rfl⟩, kept⟩
      · rw [written]
        refine .inr ⟨v, rfl, fun q => ?_⟩
        rw [content, kept]

end Schemata.Files
