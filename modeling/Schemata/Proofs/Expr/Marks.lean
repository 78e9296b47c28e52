import Schemata.Proofs.Expr.Parts

/-! What ties an expression to declarations: the validators that it refers to, and the constructors
that stand for a whole declaration. These marks are few, so that what is collected from them alone
need not be looked for anywhere else. -/
namespace Schemata.Expr

/-- The constructors that no type of a declaration is written with. -/
def declarationMethods : List String := ["lazy", "nativeEnum"]

def isMark : Expr → Bool
  | .ident _ => true
  | .zod method _ => declarationMethods.contains method
  | _ => false

def marks (e : Expr) : List Expr := e.parts.filter isMark

def identName : Expr → List String
  | .ident name => [name]
  | _ => []

def rawText? : Expr → Option String
  | .raw text => some text
  | _ => none

def enumName : Expr → List String
  | .zod method args => if method = "nativeEnum" then args.filterMap rawText? else []
  | _ => []

/-- The declarations that an expression enumerates the values of. -/
def enumNames (e : Expr) : List String := e.parts.flatMap enumName

variable {deferred : String → Bool} {e : Expr}

theorem marks_eq (e : Expr) : e.marks = [e].filter isMark ++ e.children.flatMap marks := by
  rw [marks, parts_eq, ← List.singleton_append, List.filter_append, List.filter_flatMap]
  rfl

@[simp] theorem marks_zod {method : String} (plain : declarationMethods.contains method = false)
    (args : List Expr) : (Expr.zod method args).marks = args.flatMap marks := by
  rw [marks_eq, List.filter_cons, isMark, plain]
  rfl

@[simp] theorem marks_call (target : Expr) (method : String) (args : List Expr) :
    (Expr.call target method args).marks = target.marks ++ args.flatMap marks := by
  rw [marks_eq]
  rfl

@[simp] theorem marks_member (target : Expr) (property : String) :
    (Expr.member target property).marks = target.marks := by
  rw [marks_eq]
  exact List.append_nil _

@[simp] theorem marks_object (fields : List (String × Expr)) :
    (Expr.object fields).marks = fields.flatMap fun field => field.2.marks := by
  rw [marks_eq, children, List.flatMap_map]
  rfl

/-- What nothing but marks contribute to is collected from the marks. -/
theorem flatMap_marks {α : Type} {collect : Expr → List α}
    (quiet : ∀ e, isMark e = false → collect e = []) (e : Expr) :
    e.parts.flatMap collect = e.marks.flatMap collect := by
  rw [marks]
  induction e.parts with
  | nil => rfl
  | cons part rest ih =>
    rw [List.flatMap_cons, List.filter_cons, ih]
    cases mark : isMark part with
    | true => rfl
    | false =>
      rw [quiet part mark]
      rfl

theorem mentions_eq_parts (e : Expr) : e.mentions = e.parts.flatMap identName := by
  induction e using children_induction with
  | node e ih =>
    have below : e.children.flatMap mentions =
        e.children.flatMap fun child => child.parts.flatMap identName := List.flatMap_congr ih
    rw [parts_eq, List.flatMap_cons, List.flatMap_assoc, ← below]
    cases e with
    | zod | array => simp only [mentions, mentionsAll_eq, identName, children, List.nil_append]
    | call => simp only [mentions, mentionsAll_eq, identName, children, List.nil_append,
        List.flatMap_cons]
    | object => simp only [mentions, mentionsFields_eq, identName, children, List.nil_append,
        List.flatMap_map]
    | member | arrow => simp only [mentions, identName, children, List.nil_append,
        List.flatMap_singleton]
    | ident | str | number | bool | raw => rfl

theorem mentions_eq_marks (e : Expr) : e.mentions = e.marks.flatMap identName := by
  rw [mentions_eq_parts]
  refine flatMap_marks (fun e plain => ?_) e
  cases e with
  | ident => contradiction
  | _ => rfl

theorem enumNames_eq_marks (e : Expr) : e.enumNames = e.marks.flatMap enumName := by
  refine flatMap_marks (fun e plain => ?_) e
  cases e with
  | zod method args =>
    refine if_neg ?_
    rintro rfl
    contradiction
  | _ => rfl

theorem rawText?_eraseLookups (e : Expr) : rawText? (e.eraseLookups deferred) = rawText? e := by
  cases e with
  | member target property =>
    rw [eraseLookups]
    split
    · rfl
    · rfl
  | _ => rfl

/-- A lookup of a field enumerates nothing, so erasure keeps all enumerations. -/
theorem enumNames_eraseLookups (deferred : String → Bool) (e : Expr) :
    (e.eraseLookups deferred).enumNames = e.enumNames := by
  refine flatMap_parts_kept ?_ ?_ rfl e
  · intro e stays
    cases e with
    | zod method args =>
      have texts : rawText? ∘ eraseLookups deferred = rawText? := funext rawText?_eraseLookups
      rw [eraseLookups, enumName, enumName, eraseAll_eq, List.filterMap_map, texts]
    | member =>
      rw [eraseLookups_member stays]
      rfl
    | _ => rfl
  · intro e goes
    obtain ⟨name, key, _, rfl⟩ := isErased_iff.mp goes
    rfl

theorem enumNames_lazy (body : Expr) : (Expr.zod "lazy" [.arrow body]).enumNames = body.enumNames := by
  simp only [enumNames, parts, partsAll, List.append_nil, List.flatMap_cons]
  rfl

end Schemata.Expr
