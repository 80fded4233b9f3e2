import SpriteCompiler.Program.Decode
import SpriteCompiler.Proofs.Json.Accessors

namespace SpriteCompiler

-- Every step of rewriting is kept in these proofs. Left to evaluation, they would have to decide for an
-- unknown number whether it is in the range of words, and that counts up to the end of the range.

@[simp]
theorem Span.ofJson?_toJson (s : Span) : Span.ofJson? s.toJson = some s := by
  simp -implicitDefEqProofs [Span.ofJson?, Span.toJson]

@[simp]
theorem Location.ofJson?_toJson (l : Location) : Location.ofJson? l.toJson = some l := by
  simp -implicitDefEqProofs [Location.ofJson?, Location.toJson]

@[simp]
theorem Location.fieldOf?_eq (r : Json) :
    Location.fieldOf? r = (r.field? "span").bind Location.ofJson? :=
  rfl

@[simp]
theorem ValueType.ofJson?_toJson (t : ValueType) : ValueType.ofJson? t.toJson = some t := by
  cases t <;> rfl

@[simp]
theorem Literal.ofJson?_toJson (l : Literal) : Literal.ofJson? l.toJson = some l := by
  cases l <;> rfl

@[simp]
theorem UnaryOp.ofJson?_tag (op : UnaryOp) : UnaryOp.ofJson? (.str op.tag) = some op := by
  cases op <;> rfl

@[simp]
theorem BinaryOp.ofJson?_tag (op : BinaryOp) : BinaryOp.ofJson? (.str op.tag) = some op := by
  cases op <;> rfl

theorem Expr.depth_toJson_pos (e : Expr) : 0 < e.toJson.depth := by
  cases e <;> simp [toJson, Json.tagged, Json.depth]

-- The value of an expression is nested by two for each level of the expression, and reading it goes
-- down by one, so that the depth is enough fuel.
theorem Expr.decode_toJson :
    ∀ (e : Expr) {n : Nat}, e.toJson.depth ≤ n → Expr.decode n e.toJson = some e
  | e, 0, hn => absurd hn (Nat.not_le.mpr e.depth_toJson_pos)
  | .literal v loc, n + 1, _ => by
      rw [toJson, decode, Json.bind_variant?_tagged]
      simp -implicitDefEqProofs
  | .lookup x loc, n + 1, _ => by
      rw [toJson, decode, Json.bind_variant?_tagged]
      simp -implicitDefEqProofs
  | .item array index loc, n + 1, hn => by
      simp only [toJson, Json.tagged, Json.depth, Json.depthFields] at hn
      have hindex := index.decode_toJson (n := n) (by omega)
      rw [toJson, decode, Json.bind_variant?_tagged]
      simp -implicitDefEqProofs [hindex]
  | .unary op operand loc, n + 1, hn => by
      simp only [toJson, Json.tagged, Json.depth, Json.depthFields] at hn
      have hoperand := operand.decode_toJson (n := n) (by omega)
      rw [toJson, decode, Json.bind_variant?_tagged]
      simp -implicitDefEqProofs [hoperand]
  | .binary op left right loc, n + 1, hn => by
      simp only [toJson, Json.tagged, Json.depth, Json.depthFields] at hn
      have hleft := left.decode_toJson (n := n) (by omega)
      have hright := right.decode_toJson (n := n) (by omega)
      rw [toJson, decode, Json.bind_variant?_tagged]
      simp -implicitDefEqProofs [hleft, hright]

@[simp]
theorem Expr.ofJson?_toJson (e : Expr) : Expr.ofJson? e.toJson = some e :=
  e.decode_toJson le_rfl

theorem Expr.toJson_ne_null (e : Expr) : e.toJson ≠ .null := by
  cases e <;> simp [toJson, Json.tagged]

@[simp]
theorem LocalVariable.ofJson?_toJson (d : LocalVariable) :
    LocalVariable.ofJson? d.toJson = some d := by
  have hvalue : d.toJson.optional? "value" Expr.ofJson? = some d.value :=
    Json.optional?_ofOption rfl Expr.toJson_ne_null Expr.ofJson?_toJson
  rw [toJson] at hvalue
  simp -implicitDefEqProofs [ofJson?, toJson, hvalue]

@[simp]
theorem LocalArray.ofJson?_toJson (d : LocalArray) : LocalArray.ofJson? d.toJson = some d := by
  have hitems := Json.list?_map d.items fun e _ => e.ofJson?_toJson
  simp -implicitDefEqProofs [ofJson?, toJson, hitems]

@[simp]
theorem Local.ofJson?_toJson (l : Local) : Local.ofJson? l.toJson = some l := by
  cases l <;> simp -implicitDefEqProofs [ofJson?, toJson]

@[simp]
theorem Assignment.ofJson?_toJson (a : Assignment) : Assignment.ofJson? a.toJson = some a := by
  cases a with
  | increment | decrement => rfl
  | set e | add e | subtract e | join e =>
      simp [ofJson?, toJson, Json.tag?_tagged e.toJson_ne_null]

theorem Stmt.depth_toJson_pos (s : Stmt) : 0 < s.toJson.depth := by
  cases s <;> simp [toJson, Json.tagged, Json.depth]

mutual

-- The statements inside another are at least two levels deeper in its value, and one level of fuel is
-- used up for them.
theorem Stmt.decode_toJson :
    ∀ (s : Stmt) {n : Nat}, s.toJson.depth ≤ n → Stmt.decode n s.toJson = some s
  | s, 0, hn => absurd hn (Nat.not_le.mpr s.depth_toJson_pos)
  | .declare l, n + 1, _ => by
      have hrecord : l.toJson.record? (Stmt.fieldNames "Declare") = some l.toJson := by
        cases l <;> rfl
      rw [Stmt.toJson, Stmt.decode, Json.bind_variant?_tagged]
      simp -implicitDefEqProofs [hrecord]
  | .assign x a loc, n + 1, _ => by
      rw [Stmt.toJson, Stmt.decode, Json.bind_variant?_tagged]
      simp -implicitDefEqProofs
  | .repeatLoop inline count body loc, n + 1, hn => by
      simp only [Stmt.toJson, Json.tagged, Json.depth, Json.depthFields] at hn
      have hbody := Stmt.list?_listToJson body (n := n) (by omega)
      rw [Stmt.toJson, Stmt.decode, Json.bind_variant?_tagged]
      simp -implicitDefEqProofs [hbody]
  | .whileLoop condition body loc, n + 1, hn => by
      simp only [Stmt.toJson, Json.tagged, Json.depth, Json.depthFields] at hn
      have hbody := Stmt.list?_listToJson body (n := n) (by omega)
      rw [Stmt.toJson, Stmt.decode, Json.bind_variant?_tagged]
      simp -implicitDefEqProofs [hbody]
  | .forever body loc, n + 1, hn => by
      simp only [Stmt.toJson, Json.tagged, Json.depth, Json.depthFields] at hn
      have hbody := Stmt.list?_listToJson body (n := n) (by omega)
      rw [Stmt.toJson, Stmt.decode, Json.bind_variant?_tagged]
      simp -implicitDefEqProofs [hbody]
  | .branch condition thenBody elseBody loc, n + 1, hn => by
      simp only [Stmt.toJson, Json.tagged, Json.depth, Json.depthFields] at hn
      have hthen := Stmt.list?_listToJson thenBody (n := n) (by omega)
      have helse := Stmt.list?_listToJson elseBody (n := n) (by omega)
      rw [Stmt.toJson, Stmt.decode, Json.bind_variant?_tagged]
      simp -implicitDefEqProofs [hthen, helse]
  | .switch subject cases loc, n + 1, hn => by
      simp only [Stmt.toJson, Json.tagged, Json.depth, Json.depthFields] at hn
      have hcases := Case.list?_listToJson cases (n := n) (by omega)
      rw [Stmt.toJson, Stmt.decode, Json.bind_variant?_tagged]
      simp -implicitDefEqProofs [hcases]
  | .ret value loc, n + 1, _ => by
      have hvalue : (Json.obj [("value", .ofOption Expr.toJson value), ("span", loc.toJson)]).optional?
          "value" Expr.ofJson? = some value :=
        Json.optional?_ofOption rfl Expr.toJson_ne_null Expr.ofJson?_toJson
      rw [Stmt.toJson, Stmt.decode, Json.bind_variant?_tagged]
      simp -implicitDefEqProofs [hvalue]
  | .scope body loc, n + 1, hn => by
      simp only [Stmt.toJson, Json.tagged, Json.depth, Json.depthFields] at hn
      have hbody := Stmt.list?_listToJson body (n := n) (by omega)
      rw [Stmt.toJson, Stmt.decode, Json.bind_variant?_tagged]
      simp -implicitDefEqProofs [hbody]

theorem Stmt.list?_listToJson :
    ∀ (ss : List Stmt) {n : Nat}, Json.depthItems (Stmt.listToJson ss) ≤ n →
      (Json.arr (Stmt.listToJson ss)).list? (Stmt.decode n) = some ss
  | [], _, _ => rfl
  | s :: rest, n, hn => by
      simp only [Stmt.listToJson, Json.depthItems] at hn
      have hfirst := Stmt.decode_toJson s (n := n) (by omega)
      have hrest := Stmt.list?_listToJson rest (n := n) (by omega)
      rw [Stmt.listToJson]
      exact Json.list?_cons hfirst hrest

theorem Case.decode_toJson :
    ∀ (c : Case) {n : Nat}, c.toJson.depth ≤ n → Case.decode (Stmt.decode n) c.toJson = some c
  | .mk conditions body isDefault loc, n, hn => by
      simp only [Case.toJson, Json.depth, Json.depthFields] at hn
      have hconditions := Json.list?_map conditions fun e _ => e.ofJson?_toJson
      have hbody := Stmt.list?_listToJson body (n := n) (by omega)
      simp -implicitDefEqProofs [Case.toJson, Case.decode, hconditions, hbody]

theorem Case.list?_listToJson :
    ∀ (cs : List Case) {n : Nat}, Json.depthItems (Case.listToJson cs) ≤ n →
      (Json.arr (Case.listToJson cs)).list? (Case.decode (Stmt.decode n)) = some cs
  | [], _, _ => rfl
  | c :: rest, n, hn => by
      simp only [Case.listToJson, Json.depthItems] at hn
      have hfirst := Case.decode_toJson c (n := n) (by omega)
      have hrest := Case.list?_listToJson rest (n := n) (by omega)
      rw [Case.listToJson]
      exact Json.list?_cons hfirst hrest

end

@[simp]
theorem Stmt.ofJson?_toJson (s : Stmt) : Stmt.ofJson? s.toJson = some s :=
  s.decode_toJson le_rfl

theorem Stmt.listToJson_eq_map (ss : List Stmt) : Stmt.listToJson ss = ss.map Stmt.toJson := by
  induction ss with
  | nil => rfl
  | cons s rest ih => rw [Stmt.listToJson, ih, List.map_cons]

@[simp]
theorem Parameter.ofJson?_toJson (d : Parameter) : Parameter.ofJson? d.toJson = some d := by
  simp -implicitDefEqProofs [ofJson?, toJson]

@[simp]
theorem Method.ofJson?_toJson (m : Method) : Method.ofJson? m.toJson = some m := by
  have hreturn : m.toJson.optional? "return_type" ValueType.ofJson? = some m.returnType :=
    Json.optional?_ofOption rfl (by simp [ValueType.toJson]) ValueType.ofJson?_toJson
  have hparams := Json.list?_map m.params fun d _ => d.ofJson?_toJson
  have hbody := Json.list?_map m.body fun s _ => s.ofJson?_toJson
  rw [← Stmt.listToJson_eq_map] at hbody
  have hspan : m.toJson.field? "span" = some m.loc.toJson := rfl
  have hloc : Location.fieldOf? m.toJson = some m.loc := by
    rw [Location.fieldOf?_eq, hspan, Option.bind_some, Location.ofJson?_toJson]
  -- there are too many fields to take out all of them at once
  refine Json.bind_eq_some rfl (Json.bind_eq_some rfl (Json.bind_eq_some rfl ?_))
  refine Json.bind_eq_some hreturn (Json.bind_eq_some rfl (Json.bind_eq_some hparams ?_))
  refine Json.bind_eq_some rfl (Json.bind_eq_some hbody ?_)
  iterate 6 refine Json.bind_eq_some rfl ?_
  exact Json.bind_eq_some hloc rfl

@[simp]
theorem Constant.ofJson?_toJson (d : Constant) : Constant.ofJson? d.toJson = some d := by
  simp -implicitDefEqProofs [ofJson?, toJson]

@[simp]
theorem GlobalVariable.ofJson?_toJson (d : GlobalVariable) :
    GlobalVariable.ofJson? d.toJson = some d := by
  have hnull (l : Literal) : l.toJson ≠ .null := by
    cases l <;> simp [Literal.toJson, Json.tagged]
  have hvalue : d.toJson.optional? "value" Literal.ofJson? = some d.value :=
    Json.optional?_ofOption rfl hnull Literal.ofJson?_toJson
  rw [toJson] at hvalue
  simp -implicitDefEqProofs [ofJson?, toJson, hvalue]

@[simp]
theorem GlobalList.ofJson?_toJson (d : GlobalList) : GlobalList.ofJson? d.toJson = some d := by
  have hitems := Json.list?_map d.items fun l _ => l.ofJson?_toJson
  simp -implicitDefEqProofs [ofJson?, toJson, hitems]

@[simp]
theorem Global.ofJson?_toJson (g : Global) : Global.ofJson? g.toJson = some g := by
  cases g <;> simp [ofJson?, toJson]

@[simp]
theorem Sprite.ofJson?_toJson (s : Sprite) : Sprite.ofJson? s.toJson = some s := by
  have hdeclarations := Json.list?_map s.declarations fun g _ => g.ofJson?_toJson
  have hmethods := Json.list?_map s.methods fun m _ => m.ofJson?_toJson
  simp -implicitDefEqProofs [ofJson?, toJson, hdeclarations, hmethods]

theorem Project.ofJson?_toJson (p : Project) : Project.ofJson? p.toJson = some p := by
  have hdeclarations := Json.list?_map p.declarations fun g _ => g.ofJson?_toJson
  have hsprites := Json.list?_map p.sprites fun s _ => s.ofJson?_toJson
  simp -implicitDefEqProofs [ofJson?, toJson, hdeclarations, hsprites]

end SpriteCompiler
