import Schemata.Expr.Erasure

/-! Induction over expressions, with one hypothesis for everything in a list of arguments, and the
recursions on such lists as operations of the library. -/
namespace Schemata.Expr

variable {deferred : String → Bool} {name : String}

@[elab_as_elim, induction_eliminator]
theorem induction {motive : Expr → Prop}
    (zod : ∀ method args, (∀ e ∈ args, motive e) → motive (.zod method args))
    (call : ∀ target method args, motive target → (∀ e ∈ args, motive e) →
      motive (.call target method args))
    (member : ∀ target property, motive target → motive (.member target property))
    (ident : ∀ name, motive (.ident name))
    (object : ∀ fields, (∀ field ∈ fields, motive field.2) → motive (.object fields))
    (array : ∀ items, (∀ e ∈ items, motive e) → motive (.array items))
    (str : ∀ value, motive (.str value))
    (number : ∀ text, motive (.number text))
    (bool : ∀ value, motive (.bool value))
    (raw : ∀ text, motive (.raw text))
    (arrow : ∀ body, motive body → motive (.arrow body)) (e : Expr) : motive e := by
  refine @Expr.rec motive (fun es => ∀ e ∈ es, motive e)
    (fun fields => ∀ field ∈ fields, motive field.2) (fun field => motive field.2)
    zod call member ident object array str number bool raw arrow ?_ ?_ ?_ ?_ ?_ e
  · intro e present
    contradiction
  · intro first rest ofFirst ofRest e present
    rcases List.mem_cons.mp present with rfl | later
    · exact ofFirst
    · exact ofRest e later
  · intro field present
    contradiction
  · intro first rest ofFirst ofRest field present
    rcases List.mem_cons.mp present with rfl | later
    · exact ofFirst
    · exact ofRest field later
  · intro _ _ ofValue
    exact ofValue

theorem mentionsAll_eq (es : List Expr) : mentionsAll es = es.flatMap mentions := by
  induction es with
  | nil => rfl
  | cons e rest ih => rw [mentionsAll, List.flatMap_cons, ih]

theorem mentionsFields_eq (fields : List (String × Expr)) :
    mentionsFields fields = fields.flatMap fun field => field.2.mentions := by
  induction fields with
  | nil => rfl
  | cons field rest ih => rw [mentionsFields, List.flatMap_cons, ih]

theorem collectAll_eq (seen : List String) (es : List Expr) :
    collectAll seen es = es.foldl collect seen := by
  induction es generalizing seen with
  | nil => rfl
  | cons e rest ih => rw [collectAll, List.foldl_cons, ih]

theorem collectFields_eq (seen : List String) (fields : List (String × Expr)) :
    collectFields seen fields = (fields.map (·.2)).foldl collect seen := by
  induction fields generalizing seen with
  | nil => rfl
  | cons field rest ih => rw [collectFields, List.map_cons, List.foldl_cons, ih]

theorem eraseAll_eq (es : List Expr) : eraseAll deferred es = es.map (eraseLookups deferred) := by
  induction es with
  | nil => rfl
  | cons e rest ih => rw [eraseAll, List.map_cons, ih]

theorem eraseFields_eq (fields : List (String × Expr)) :
    eraseFields deferred fields =
      fields.map fun field => (field.1, eraseLookups deferred field.2) := by
  induction fields with
  | nil => rfl
  | cons field rest ih => rw [eraseFields, List.map_cons, ih]

end Schemata.Expr
