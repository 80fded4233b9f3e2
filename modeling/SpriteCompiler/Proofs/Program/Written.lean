import SpriteCompiler.Proofs.Program.Everywhere
import SpriteCompiler.Proofs.Program.RoundTrip

namespace SpriteCompiler

def Expr.literals : Expr → List Literal
  | .literal l _ => [l]
  | .lookup _ _ => []
  | .item _ index _ => index.literals
  | .unary _ operand _ => operand.literals
  | .binary _ left right _ => left.literals ++ right.literals

mutual

def Stmt.literals : Stmt → List Literal
  | .declare l => l.initializers.flatMap Expr.literals
  | .assign _ a _ => a.operand?.toList.flatMap Expr.literals
  | .repeatLoop _ count body _ => count.literals ++ Stmt.allLiterals body
  | .whileLoop condition body _ => condition.literals ++ Stmt.allLiterals body
  | .forever body _ => Stmt.allLiterals body
  | .branch condition thenBody elseBody _ =>
    condition.literals ++ Stmt.allLiterals thenBody ++ Stmt.allLiterals elseBody
  | .switch subject cases _ => subject.literals ++ Stmt.caseLiterals cases
  | .ret value _ => value.toList.flatMap Expr.literals
  | .scope body _ => Stmt.allLiterals body

def Stmt.allLiterals : List Stmt → List Literal
  | [] => []
  | s :: rest => s.literals ++ Stmt.allLiterals rest

def Stmt.caseLiterals : List Case → List Literal
  | [] => []
  | .mk conditions body _ _ :: rest =>
    conditions.flatMap Expr.literals ++ Stmt.allLiterals body ++ Stmt.caseLiterals rest

end

def Global.literals : Global → List Literal
  | .constant d => [d.value]
  | .variable d => d.value.toList
  | .list d => d.items

def Sprite.literals (s : Sprite) : List Literal :=
  s.declarations.flatMap Global.literals ++ s.methods.flatMap fun m => Stmt.allLiterals m.body

def Project.literals (p : Project) : List Literal :=
  p.declarations.flatMap Global.literals ++ p.sprites.flatMap Sprite.literals

def Literal.IsFinite : Literal → Prop
  | .number x => Number.isFinite x = true
  | .text _ | .boolean _ => True

instance : DecidablePred Literal.IsFinite
  | .number x => inferInstanceAs (Decidable (Number.isFinite x = true))
  | .text _ | .boolean _ => inferInstanceAs (Decidable True)

-- A literal is written as it is exactly if it is finite.
theorem Literal.written_toJson_iff (l : Literal) : l.toJson.written = l.toJson ↔ l.IsFinite := by
  cases l with
  | number x =>
      cases hx : Number.isFinite x <;>
        simp [toJson, Json.tagged, Json.written, Json.writtenFields, IsFinite, hx]
  | text | boolean =>
      simp [toJson, Json.tagged, Json.written, Json.writtenFields, IsFinite]

@[simp]
theorem Location.written_toJson (l : Location) : l.toJson.written = l.toJson := by
  simp [toJson, Span.toJson, Json.word]

@[simp]
theorem ValueType.written_toJson (t : ValueType) : t.toJson.written = t.toJson := by
  simp [toJson]

theorem Expr.written_toJson {e : Expr} (h : ∀ l ∈ e.literals, l.IsFinite) :
    e.toJson.written = e.toJson := by
  induction e with
  | literal l loc =>
      have hl := l.written_toJson_iff.mpr (h l (List.mem_singleton_self l))
      simp [toJson, Json.tagged, hl]
  | lookup x loc => simp [toJson, Json.tagged]
  | item array index loc ih => simp [toJson, Json.tagged, ih h]
  | unary op operand loc ih => simp [toJson, Json.tagged, ih h]
  | binary op left right loc ihleft ihright =>
      rw [literals, List.forall_mem_append] at h
      simp [toJson, Json.tagged, ihleft h.1, ihright h.2]

theorem Expr.written_each {es : List Expr} (h : ∀ l ∈ es.flatMap literals, l.IsFinite) :
    ∀ e ∈ es, e.toJson.written = e.toJson := by
  intro e he
  exact written_toJson (List.forall_mem_flatMap.mp h e he)

theorem Expr.written_optional {value : Option Expr}
    (h : ∀ l ∈ value.toList.flatMap literals, l.IsFinite) :
    (Json.ofOption toJson value).written = .ofOption toJson value := by
  refine Json.written_ofOption fun e he => ?_
  exact written_each h e (Option.mem_toList.mpr he)

theorem Local.written_toJson {d : Local}
    (h : ∀ l ∈ d.initializers.flatMap Expr.literals, l.IsFinite) : d.toJson.written = d.toJson := by
  obtain v | a := d
  · have hvalue : (Json.ofOption Expr.toJson v.value).written = .ofOption Expr.toJson v.value :=
      Expr.written_optional h
    simp [toJson, LocalVariable.toJson, Json.tagged, Json.word, hvalue]
  · have hitems : Json.writtenItems (a.items.map Expr.toJson) = a.items.map Expr.toJson :=
      Json.writtenItems_map (Expr.written_each h)
    simp [toJson, LocalArray.toJson, Json.tagged, hitems]

theorem Assignment.written_toJson {a : Assignment}
    (h : ∀ l ∈ a.operand?.toList.flatMap Expr.literals, l.IsFinite) :
    a.toJson.written = a.toJson := by
  cases a with
  | increment | decrement => simp [toJson]
  | set e | add e | subtract e | join e =>
      have he := Expr.written_each h e (by simp [operand?])
      simp [toJson, Json.tagged, he]

mutual

-- Along the recursion of the literals: those of a part are among those of the whole.
theorem Stmt.written_toJson :
    ∀ s : Stmt, (∀ l ∈ s.literals, l.IsFinite) → s.toJson.written = s.toJson
  | .declare d, h => by
      simp [Stmt.toJson, Json.tagged, Local.written_toJson (d := d) h]
  | .assign x a loc, h => by
      simp [Stmt.toJson, Json.tagged, Assignment.written_toJson (a := a) h]
  | .repeatLoop inline count body loc, h => by
      rw [Stmt.literals, List.forall_mem_append] at h
      simp [Stmt.toJson, Json.tagged, Expr.written_toJson h.1, Stmt.written_listToJson body h.2]
  | .whileLoop condition body loc, h => by
      rw [Stmt.literals, List.forall_mem_append] at h
      simp [Stmt.toJson, Json.tagged, Expr.written_toJson h.1, Stmt.written_listToJson body h.2]
  | .forever body loc, h => by
      rw [Stmt.literals] at h
      simp [Stmt.toJson, Json.tagged, Stmt.written_listToJson body h]
  | .branch condition thenBody elseBody loc, h => by
      rw [Stmt.literals, List.forall_mem_append, List.forall_mem_append] at h
      obtain ⟨⟨hcondition, hthen⟩, helse⟩ := h
      simp [Stmt.toJson, Json.tagged, Expr.written_toJson hcondition,
        Stmt.written_listToJson thenBody hthen, Stmt.written_listToJson elseBody helse]
  | .switch subject cases loc, h => by
      rw [Stmt.literals, List.forall_mem_append] at h
      simp [Stmt.toJson, Json.tagged, Expr.written_toJson h.1, Case.written_listToJson cases h.2]
  | .ret value loc, h => by
      rw [Stmt.literals] at h
      simp [Stmt.toJson, Json.tagged, Expr.written_optional h]
  | .scope body loc, h => by
      rw [Stmt.literals] at h
      simp [Stmt.toJson, Json.tagged, Stmt.written_listToJson body h]

theorem Stmt.written_listToJson :
    ∀ ss : List Stmt, (∀ l ∈ Stmt.allLiterals ss, l.IsFinite) →
      Json.writtenItems (Stmt.listToJson ss) = Stmt.listToJson ss
  | [], _ => rfl
  | s :: rest, h => by
      rw [Stmt.allLiterals, List.forall_mem_append] at h
      rw [Stmt.listToJson, Json.writtenItems, Stmt.written_toJson s h.1,
        Stmt.written_listToJson rest h.2]

theorem Case.written_listToJson :
    ∀ cs : List Case, (∀ l ∈ Stmt.caseLiterals cs, l.IsFinite) →
      Json.writtenItems (Case.listToJson cs) = Case.listToJson cs
  | [], _ => rfl
  | .mk conditions body isDefault loc :: rest, h => by
      rw [Stmt.caseLiterals, List.forall_mem_append, List.forall_mem_append] at h
      obtain ⟨⟨hconditions, hbody⟩, hrest⟩ := h
      have hitems := Json.writtenItems_map (Expr.written_each hconditions)
      rw [Case.listToJson, Json.writtenItems, Case.written_listToJson rest hrest]
      simp [Case.toJson, hitems, Stmt.written_listToJson body hbody]

end

theorem Method.written_toJson {m : Method} (h : ∀ l ∈ Stmt.allLiterals m.body, l.IsFinite) :
    m.toJson.written = m.toJson := by
  have hreturn : (Json.ofOption ValueType.toJson m.returnType).written =
      .ofOption ValueType.toJson m.returnType :=
    Json.written_ofOption fun t _ => t.written_toJson
  have hparams : Json.writtenItems (m.params.map Parameter.toJson) = m.params.map Parameter.toJson :=
    Json.writtenItems_map fun d _ => by simp [Parameter.toJson]
  simp [toJson, hreturn, hparams, Stmt.written_listToJson m.body h]

theorem Global.written_toJson {g : Global} (h : ∀ l ∈ g.literals, l.IsFinite) :
    g.toJson.written = g.toJson := by
  have hliteral (l : Literal) (hl : l ∈ g.literals) : l.toJson.written = l.toJson :=
    l.written_toJson_iff.mpr (h l hl)
  obtain c | v | l := g
  · simp [toJson, Constant.toJson, Json.tagged, hliteral c.value (List.mem_singleton_self _)]
  · have hvalue : (Json.ofOption Literal.toJson v.value).written = .ofOption Literal.toJson v.value :=
      Json.written_ofOption fun l hl => hliteral l (Option.mem_toList.mpr hl)
    simp [toJson, GlobalVariable.toJson, Json.tagged, hvalue]
  · have hitems : Json.writtenItems (l.items.map Literal.toJson) = l.items.map Literal.toJson :=
      Json.writtenItems_map hliteral
    simp [toJson, GlobalList.toJson, Json.tagged, hitems]

theorem Global.written_each {gs : List Global} (h : ∀ l ∈ gs.flatMap literals, l.IsFinite) :
    ∀ g ∈ gs, g.toJson.written = g.toJson := by
  intro g hg
  exact written_toJson (List.forall_mem_flatMap.mp h g hg)

theorem Sprite.written_toJson {s : Sprite} (h : ∀ l ∈ s.literals, l.IsFinite) :
    s.toJson.written = s.toJson := by
  rw [literals, List.forall_mem_append] at h
  have hmethods : ∀ m ∈ s.methods, m.toJson.written = m.toJson := by
    intro m hm
    exact Method.written_toJson (List.forall_mem_flatMap.mp h.2 m hm)
  simp [toJson, Json.writtenItems_map (Global.written_each h.1), Json.writtenItems_map hmethods]

theorem Project.written_toJson {p : Project} (h : ∀ l ∈ p.literals, l.IsFinite) :
    p.toJson.written = p.toJson := by
  rw [literals, List.forall_mem_append] at h
  have hsprites : ∀ s ∈ p.sprites, s.toJson.written = s.toJson := by
    intro s hs
    exact Sprite.written_toJson (List.forall_mem_flatMap.mp h.2 s hs)
  simp [toJson, Json.writtenItems_map (Global.written_each h.1), Json.writtenItems_map hsprites]

-- What is written reads back as it was, for projects, statements and expressions with finite
-- literals. The text of a program is the text of what is written.
theorem program_reads_back :
    (∀ p : Project, (∀ l ∈ p.literals, l.IsFinite) →
      p.toJson.written.render = p.toJson.render ∧ Project.ofJson? p.toJson.written = some p) ∧
    (∀ s : Stmt, (∀ l ∈ s.literals, l.IsFinite) →
      s.toJson.written.render = s.toJson.render ∧ Stmt.ofJson? s.toJson.written = some s) ∧
    (∀ e : Expr, (∀ l ∈ e.literals, l.IsFinite) →
      e.toJson.written.render = e.toJson.render ∧ Expr.ofJson? e.toJson.written = some e) := by
  refine ⟨fun p h => ⟨Json.render_written _, ?_⟩, fun s h => ⟨Json.render_written _, ?_⟩,
    fun e h => ⟨Json.render_written _, ?_⟩⟩
  · rw [Project.written_toJson h, Project.ofJson?_toJson]
  · rw [Stmt.written_toJson s h, Stmt.ofJson?_toJson]
  · rw [Expr.written_toJson h, Expr.ofJson?_toJson]

-- Declarations of all kinds, with and without a value, and a method with a switch.
def Project.varied : Project :=
  let at0 : Location := ⟨0, ⟨3, 9⟩⟩
  let number (x : Float) : Expr := .literal (.number x) at0
  let first : Case := .mk [.binary .equal (.lookup "lives" at0) (number 1.5) at0]
    [.assign "lives" .increment at0, .ret none at0] false at0
  let otherwise : Case := .mk [] [.scope [.forever [] at0] at0] true at0
  { name := "varied"
    declarations := [.constant ⟨"MAX", .number, .number (-0.0), at0⟩,
      .variable ⟨"lives", .number, none, at0⟩]
    sprites := [
      { name := "cat"
        declarations := [.variable ⟨"title", .text, some (.text "a \"b\""), at0⟩,
          .list ⟨"flags", .boolean, [.boolean true, .boolean false], at0⟩]
        methods := [.sample,
          { name := "turn"
            returnType := none
            params := []
            body := [.switch (.unary .minus (.lookup "lives" at0) at0) [first, otherwise] at0]
            inline := true
            atomic := false
            isUnsafe := true
            loc := at0 }]
        loc := at0 }] }

theorem program_reads_back_varied :
    (∀ l ∈ Project.varied.literals, l.IsFinite) ∧
      Project.ofJson? Project.varied.toJson.written = some .varied := by
  have hfinite : ∀ l ∈ Project.varied.literals, l.IsFinite := by decide
  exact ⟨hfinite, (program_reads_back.1 .varied hfinite).2⟩

end SpriteCompiler
