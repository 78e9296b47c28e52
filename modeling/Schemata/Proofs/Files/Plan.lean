import Mathlib.Logic.Relation
import Schemata.Proofs.Files.Run

/-! Commands that share a tree of files. A plan is a command before it is carried out: it asks for
one operation on files after the other and goes on by the answers. Where several are under way, any
of them may take the next step. -/
namespace Schemata.Files

inductive Operation where
  | holds (path : String)
  | isFile (path : String)
  | read (path : String)
  | write (path text : String)
  | makeDirectories (path : String)

namespace Operation

def Answer : Operation → Type
  | holds _ => Bool
  | isFile _ => Bool
  | read _ => Except Failure String
  | write _ _ => Except Failure Unit
  | makeDirectories _ => Except Failure Unit

def perform : (o : Operation) → StateM Tree o.Answer
  | holds path => Access.holds path
  | isFile path => Access.isFile path
  | read path => Access.read path
  | write path text => Access.write path text
  | makeDirectories path => Access.makeDirectories path

theorem run_write (t : Tree) (path text : String) :
    t.run (write path text).perform = t.writeText path.toList text := rfl

theorem run_makeDirectories (t : Tree) (path : String) :
    t.run (makeDirectories path).perform = t.makeDirectories path.toList := rfl

end Operation

inductive Plan (α : Type) where
  | done (result : α)
  | ask (o : Operation) (next : o.Answer → Plan α)

namespace Plan

variable {α β : Type} {t u : Tree}

def bind (f : α → Plan β) : Plan α → Plan β
  | done a => f a
  | ask o next => ask o fun answer => (next answer).bind f

instance : Monad Plan where
  pure := done
  bind p f := p.bind f

instance : Access Plan where
  holds path := ask (.holds path) done
  isFile path := ask (.isFile path) done
  read path := ask (.read path) done
  write path text := ask (.write path text) done
  makeDirectories path := ask (.makeDirectories path) done

/-- Carries a plan out, with no other one under way. -/
def perform : Plan α → StateM Tree α
  | done a => pure a
  | ask o next => do (next (← o.perform)).perform

theorem run_ask (t : Tree) (o : Operation) (next : o.Answer → Plan α) :
    t.run (ask o next).perform = (t.run o.perform).2.run (next (t.run o.perform).1).perform := rfl

theorem perform_bind (p : Plan α) (f : α → Plan β) :
    (p >>= f).perform = p.perform >>= fun a => (f a).perform := by
  change (p.bind f).perform = _
  induction p with
  | done a => rfl
  | ask o next ih =>
    funext t
    exact congrFun (ih (t.run o.perform).1) (t.run o.perform).2

end Plan

/-- Plans that are under way, with the tree that they share. -/
abbrev Course (α : Type) := List (Plan α) × Tree

/-- One of the plans goes one operation on. -/
inductive Step {α : Type} : Course α → Course α → Prop
  | mk (front : List (Plan α)) (o : Operation) (next : o.Answer → Plan α)
      (behind : List (Plan α)) (t : Tree) :
      Step (front ++ .ask o next :: behind, t)
        (front ++ next (t.run o.perform).1 :: behind, (t.run o.perform).2)

/-- Plans come to their ends in some order, and leave a tree behind. -/
def Finishes {α : Type} (plans : List (Plan α)) (t : Tree) (results : List α) (u : Tree) : Prop :=
  Relation.ReflTransGen Step (plans, t) (results.map .done, u)

variable {α : Type}

/-- One plan may be carried out as a whole while the others wait. -/
theorem steps_perform (front : List (Plan α)) (p : Plan α) (behind : List (Plan α)) (t : Tree) :
    Relation.ReflTransGen Step (front ++ p :: behind, t)
      (front ++ .done (t.run p.perform).1 :: behind, (t.run p.perform).2) := by
  induction p generalizing t with
  | done a => exact .refl
  | ask o next ih => exact .head (.mk front o next behind t) (ih _ _)

/-- Plans that are carried out one behind the other come to their ends so. -/
theorem steps_mapM {ι : Type} (plan : ι → Plan α) (front : List α) (items : List ι) (t : Tree) :
    Relation.ReflTransGen Step (front.map .done ++ items.map plan, t)
      ((front ++ (t.run (items.mapM fun i => (plan i).perform)).1).map .done,
        (t.run (items.mapM fun i => (plan i).perform)).2) := by
  induction items generalizing front t with
  | nil =>
    rw [List.map_nil, List.append_nil, List.mapM_nil, Tree.run_pure, List.append_nil]
  | cons i items ih =>
    rw [List.mapM_cons, Tree.run_bind, Tree.run_bind, Tree.run_pure]
    have first := steps_perform (front.map .done) (plan i) (items.map plan) t
    have rest := ih (front ++ [(t.run (plan i).perform).1]) (t.run (plan i).perform).2
    rw [List.map_append, List.append_assoc] at rest
    refine first.trans ?_
    rw [List.append_assoc] at rest
    exact rest

end Schemata.Files
