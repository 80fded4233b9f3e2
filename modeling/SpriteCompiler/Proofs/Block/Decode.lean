import SpriteCompiler.Block.Script
import SpriteCompiler.Proofs.Block.Grammar
import SpriteCompiler.Proofs.Json.Accessors
import SpriteCompiler.Proofs.Lowering.Realize
import SpriteCompiler.Proofs.Number.Canonical

namespace SpriteCompiler

namespace Opcode

def ofSelector? (s : String) : Option Opcode :=
  all.find? fun op => op.selector == s

@[simp]
theorem ofSelector?_selector (op : Opcode) : ofSelector? op.selector = some op := by
  cases op <;> rfl

end Opcode

-- The file keeps the value. A number that is not finite is written as null, and negative zero as
-- zero.
def Literal.isKept : Literal → Bool
  | .number x => Number.isFinite x && decide (x ≠ -0.0)
  | .text _ | .boolean _ => true

def Literal.read? : Json → Option Literal
  | .int n => some (.number (Float.ofInt n))
  | .float x => some (.number x)
  | .str s => some (.text s)
  | .bool b => some (.boolean b)
  | _ => none

-- In the file, bodies and blocks are both arrays, and empty bodies and placeholders both null. The
-- instruction that a parameter belongs to tells them apart.

mutual

-- A block has as many parameters as its instruction takes, and bodies exactly where they belong.
def Block.isPlaced : Block → Bool
  | .mk op params => params.length == op.arity && Param.allPlaced op 0 params

def Param.allPlaced (op : Opcode) (index : Nat) : List Param → Bool
  | [] => true
  | p :: rest => p.isPlaced (op.isBodyAt index) && Param.allPlaced op (index + 1) rest

def Param.isPlaced (asBody : Bool) : Param → Bool
  | .literal _ | .empty => !asBody
  | .block b => !asBody && b.isPlaced
  | .body blocks => asBody && Block.allPlaced blocks

def Block.allPlaced : List Block → Bool
  | [] => true
  | b :: rest => b.isPlaced && Block.allPlaced rest

end

mutual

-- The grammar asks for more: which instructions may stand in a body, and which in a value.

theorem Block.isPlaced_of_wellFormed : ∀ b : Block, b.wellFormed → b.isPlaced
  | .mk op ps, h => by
      simp only [Block.wellFormed, Bool.and_eq_true] at h
      simp only [Block.isPlaced, h.1, Param.allPlaced_of_allFit op 0 ps h.2, Bool.and_self]

theorem Param.allPlaced_of_allFit (op : Opcode) : ∀ (index : Nat) (ps : List Param),
    Param.allFit op index ps → Param.allPlaced op index ps
  | _, [], _ => rfl
  | index, p :: rest, h => by
      simp only [Param.allFit, Bool.and_eq_true] at h
      simp only [Param.allPlaced, Param.isPlaced_of_fits (op.isBodyAt index) p h.1,
        Param.allPlaced_of_allFit op (index + 1) rest h.2, Bool.and_self]

theorem Param.isPlaced_of_fits (asBody : Bool) : ∀ p : Param, p.fits asBody → p.isPlaced asBody
  | .literal _, h | .empty, h => h
  | .block b, h => by
      simp only [Param.fits, Bool.and_eq_true] at h
      simp only [Param.isPlaced, h.1.1, Block.isPlaced_of_wellFormed b h.2, Bool.and_self]
  | .body bs, h => by
      simp only [Param.fits, Bool.and_eq_true] at h
      simp only [Param.isPlaced, h.1, Block.allPlaced_of_isBody bs h.2, Bool.and_self]

theorem Block.allPlaced_of_isBody : ∀ bs : List Block, Block.isBody bs → Block.allPlaced bs
  | [], _ => rfl
  | b :: rest, h => by
      simp only [Block.isBody, Bool.and_eq_true] at h
      simp only [Block.allPlaced, Block.isPlaced_of_wellFormed b h.1.2,
        Block.allPlaced_of_isBody rest h.2, Bool.and_self]

end

mutual

-- All literals of a block, at every depth.
def Block.literals : Block → List Literal
  | .mk _ params => Param.allLiterals params

def Param.allLiterals : List Param → List Literal
  | [] => []
  | p :: rest => p.literals ++ Param.allLiterals rest

def Param.literals : Param → List Literal
  | .literal value => [value]
  | .block b => b.literals
  | .body blocks => Block.allLiterals blocks
  | .empty => []

def Block.allLiterals : List Block → List Literal
  | [] => []
  | b :: rest => b.literals ++ Block.allLiterals rest

end

mutual

-- A block from the items of its array.
def Block.readItems? : List Json → Option Block
  | .str selector :: params =>
    match Opcode.ofSelector? selector with
    | some op => if params.length = op.arity then (Param.readAll? op 0 params).map (.mk op) else none
    | none => none
  | _ => none

def Param.readAll? (op : Opcode) (index : Nat) : List Json → Option (List Param)
  | [] => some []
  | j :: rest =>
    match Param.read? (op.isBodyAt index) j, Param.readAll? op (index + 1) rest with
    | some p, some ps => some (p :: ps)
    | _, _ => none

-- Where a body belongs, null is the empty one. Anywhere else it is the placeholder.
def Param.read? : Bool → Json → Option Param
  | true, .null => some (.body [])
  | true, .arr items => (Block.readAll? items).map .body
  | true, _ => none
  | false, .null => some .empty
  | false, .arr items => (Block.readItems? items).map .block
  | false, j => (Literal.read? j).map .literal

def Block.readAll? : List Json → Option (List Block)
  | [] => some []
  | .arr items :: rest =>
    match Block.readItems? items, Block.readAll? rest with
    | some b, some bs => some (b :: bs)
    | _, _ => none
  | _ => none

end

def Block.read? : Json → Option Block
  | .arr items => Block.readItems? items
  | _ => none

def Procedure.read? (name : String) : Json → Option Procedure
  | .arr (.arr [.str "procDef", .str spec, params, defaults, .bool atomic] :: body) => do
    return { name, spec, params := ← params.list? Json.str?, defaults := ← defaults.list? Literal.read?,
             atomic, body := ← Block.readAll? body }
  | _ => none

-- What a project file keeps of blocks: all, if they are placed and their numbers are kept.
structure Block.Recoverable (blocks : List Block) : Prop where
  placed : Block.allPlaced blocks
  kept : ∀ v ∈ Block.allLiterals blocks, v.isKept

structure Procedure.Recoverable (p : Procedure) : Prop where
  body : Block.Recoverable p.body
  defaults : ∀ v ∈ p.defaults, v.isKept

instance (blocks : List Block) : Decidable (Block.Recoverable blocks) :=
  decidable_of_iff (Block.allPlaced blocks ∧ ∀ v ∈ Block.allLiterals blocks, v.isKept)
    ⟨fun h => ⟨h.1, h.2⟩, fun h => ⟨h.1, h.2⟩⟩

-- What is written of a value that is kept, and that it is neither null nor an array.
theorem Literal.written_stored {v : Literal} (h : v.isKept) : v.stored.written = v.stored := by
  cases v with
  | number x =>
      simp only [isKept, Bool.and_eq_true] at h
      rw [stored]
      split
      · rfl
      · simp [h.1]
  | text s => rfl
  | boolean b => rfl

theorem Literal.read?_stored {v : Literal} (h : v.isKept) : read? v.stored = some v := by
  cases v with
  | number x =>
      simp only [isKept, Bool.and_eq_true, decide_eq_true_eq] at h
      rw [stored]
      split
      · rename_i n hn
        rw [read?, Number.eq_ofInt_of_smallInt? hn h.2]
      · rfl
  | text s => rfl
  | boolean b => rfl

theorem Param.read?_stored {v : Literal} (h : v.isKept) :
    Param.read? false v.stored = some (.literal v) := by
  have hread := Literal.read?_stored h
  cases hj : v.stored with
  | null => rw [hj] at hread; cases hread
  | arr items => rw [hj] at hread; cases hread
  | _ =>
      rw [hj] at hread
      simp only [Param.read?, hread, Option.map_some]

theorem Param.length_listToJson (ps : List Param) :
    (Json.writtenItems (Param.listToJson ps)).length = ps.length := by
  induction ps with
  | nil => rfl
  | cons p ps ih => simp only [Param.listToJson, Json.writtenItems, List.length_cons, ih]

theorem Param.read?_block (b : Block) :
    Param.read? false b.toJson.written = (Block.read? b.toJson.written).map .block := by
  cases b with
  | mk op ps => simp only [Block.toJson, Json.written, Param.read?, Block.read?]

theorem Block.readAll?_cons (b : Block) (rest : List Json) :
    Block.readAll? (b.toJson.written :: rest) =
      match Block.read? b.toJson.written, Block.readAll? rest with
      | some b, some bs => some (b :: bs)
      | _, _ => none := by
  cases b with
  | mk op ps => simp only [Block.toJson, Json.written, Block.readAll?, Block.read?]

mutual

-- Reading gives back what was written, by recursion over blocks, parameters and bodies.
theorem Block.read?_written : ∀ b : Block, b.isPlaced → (∀ v ∈ b.literals, v.isKept) →
    Block.read? b.toJson.written = some b
  | .mk op ps, hplaced, hkept => by
      simp only [Block.isPlaced, Bool.and_eq_true, beq_iff_eq] at hplaced
      rw [Block.literals] at hkept
      have hread := Param.readAll?_written op 0 ps hplaced.2 hkept
      simp only [Block.toJson, Json.written, Json.writtenItems, Block.read?, Block.readItems?,
        Opcode.ofSelector?_selector, Param.length_listToJson, hplaced.1, if_true, hread,
        Option.map_some]

theorem Param.readAll?_written (op : Opcode) : ∀ (index : Nat) (ps : List Param),
    Param.allPlaced op index ps → (∀ v ∈ Param.allLiterals ps, v.isKept) →
    Param.readAll? op index (Json.writtenItems (Param.listToJson ps)) = some ps
  | _, [], _, _ => rfl
  | index, p :: rest, hplaced, hkept => by
      simp only [Param.allPlaced, Bool.and_eq_true] at hplaced
      rw [Param.allLiterals, List.forall_mem_append] at hkept
      have hfirst := Param.read?_written (op.isBodyAt index) p hplaced.1 hkept.1
      have hrest := Param.readAll?_written op (index + 1) rest hplaced.2 hkept.2
      simp only [Param.listToJson, Json.writtenItems, Param.readAll?, hfirst, hrest]

-- A body is told from a block, and an empty body from the placeholder, by where it stands.
theorem Param.read?_written : ∀ (asBody : Bool) (p : Param), p.isPlaced asBody →
    (∀ v ∈ p.literals, v.isKept) → Param.read? asBody p.toJson.written = some p
  | false, .literal v, _, hkept => by
      have hv := hkept v (by simp [Param.literals])
      rw [Param.toJson, Literal.written_stored hv, Param.read?_stored hv]
  | false, .empty, _, _ => rfl
  | false, .block b, hplaced, hkept => by
      simp only [Param.isPlaced, Bool.not_false, Bool.true_and] at hplaced
      rw [Param.literals] at hkept
      rw [Param.toJson, Param.read?_block, Block.read?_written b hplaced hkept, Option.map_some]
  | true, .body [], _, _ => rfl
  | true, .body (b :: rest), hplaced, hkept => by
      simp only [Param.isPlaced, Bool.true_and] at hplaced
      rw [Param.literals] at hkept
      have hread := Block.readAll?_written (b :: rest) hplaced hkept
      simp only [Block.listToJson, Json.writtenItems] at hread
      simp only [Param.toJson, Json.written, Json.writtenItems, Param.read?, hread, Option.map_some]
  | true, .literal _, hplaced, _ | true, .empty, hplaced, _ | true, .block _, hplaced, _
  | false, .body _, hplaced, _ => by simp [Param.isPlaced] at hplaced

theorem Block.readAll?_written : ∀ bs : List Block, Block.allPlaced bs →
    (∀ v ∈ Block.allLiterals bs, v.isKept) →
    Block.readAll? (Json.writtenItems (Block.listToJson bs)) = some bs
  | [], _, _ => rfl
  | b :: rest, hplaced, hkept => by
      simp only [Block.allPlaced, Bool.and_eq_true] at hplaced
      rw [Block.allLiterals, List.forall_mem_append] at hkept
      have hfirst := Block.read?_written b hplaced.1 hkept.1
      have hrest := Block.readAll?_written rest hplaced.2 hkept.2
      simp only [Block.listToJson, Json.writtenItems, Block.readAll?_cons, hfirst, hrest]

end

-- The name of a procedure is not in the file, so that it has to be given.
theorem Procedure.read?_written {p : Procedure} (h : p.Recoverable) (name : String) :
    Procedure.read? name p.toJson.written = some { p with name } := by
  have hparams : Json.writtenItems (p.params.map .str) = p.params.map .str :=
    Json.writtenItems_map fun _ _ => rfl
  have hdefaults : Json.writtenItems (p.defaults.map Literal.stored) =
      p.defaults.map Literal.stored :=
    Json.writtenItems_map fun v hv => Literal.written_stored (h.defaults v hv)
  have hreadParams := Json.list?_map (f := .str) (g := Json.str?) p.params fun _ _ => rfl
  have hreadDefaults := Json.list?_map (f := Literal.stored) (g := Literal.read?) p.defaults
    fun v hv => Literal.read?_stored (h.defaults v hv)
  have hbody := Block.readAll?_written p.body h.body.placed h.body.kept
  simp only [Procedure.toJson, Procedure.header, Json.written, Json.writtenItems, hparams, hdefaults,
    Procedure.read?, hreadParams, hreadDefaults, hbody, Option.pure_def, Option.bind_eq_bind,
    Option.bind_some]

-- Whatever a method is compiled to is placed, and the defaults of its parameters are kept.
theorem Method.recoverable_procedure (o : Options) (ctx : Context) (m : Method)
    (h : ∀ v ∈ Block.allLiterals (m.procedure o ctx).body, v.isKept) :
    (m.procedure o ctx).Recoverable := by
  refine ⟨⟨Block.allPlaced_of_isBody _ (Command.isBody_emitAll o _), h⟩, fun v hv => ?_⟩
  obtain ⟨x, -, rfl⟩ := List.mem_map.mp hv
  cases x.type <;> decide +kernel

-- A project file determines the blocks that are in it. They can be read back, although an empty body
-- and a placeholder are both written as null, and a body and a block both as an array. So two lists of
-- blocks with the same JSON are the same, and so are two procedures but for their names. What methods
-- are compiled to is of this form.
theorem block_json_determines_blocks :
    (∀ b : Block, b.isPlaced → (∀ v ∈ b.literals, v.isKept) →
      Block.read? b.toJson.written = some b) ∧
    (∀ (p : Procedure) (name : String), p.Recoverable →
      Procedure.read? name p.toJson.written = some { p with name }) ∧
    (∀ bs cs : List Block, Block.Recoverable bs → Block.Recoverable cs →
      (Json.arr (Block.listToJson bs)).written = (Json.arr (Block.listToJson cs)).written → bs = cs) ∧
    (∀ p q : Procedure, p.Recoverable → q.Recoverable → p.toJson.written = q.toJson.written →
      p = { q with name := p.name }) ∧
    (∀ (o : Options) (ctx : Context) (m : Method) (r : Report),
      ∃ p r', lowerMethod o ctx m r = (.ok p, r') ∧
        ((∀ v ∈ Block.allLiterals p.body, v.isKept) → p.Recoverable)) := by
  refine ⟨Block.read?_written, fun p name hp => Procedure.read?_written hp name, ?_, ?_, ?_⟩
  · intro bs cs hbs hcs hjson
    simp only [Json.written, Json.arr.injEq] at hjson
    have hread := Block.readAll?_written bs hbs.placed hbs.kept
    rw [hjson, Block.readAll?_written cs hcs.placed hcs.kept] at hread
    exact (Option.some.inj hread).symm
  · intro p q hp hq hjson
    have hread := Procedure.read?_written hp p.name
    rw [hjson, Procedure.read?_written hq p.name] at hread
    exact (Option.some.inj hread).symm
  · intro o ctx m r
    obtain ⟨r', hrun, -⟩ := lowerMethod_run o ctx m r
    exact ⟨_, r', hrun, m.recoverable_procedure o ctx⟩

-- Bodies with and without blocks, a placeholder, texts that are selectors, and numbers of every form.
def Procedure.mixed : Procedure where
  name := "mixed"
  spec := "mixed %n"
  params := ["x"]
  defaults := [.number 0.0]
  atomic := true
  body :=
    [.mk .ifThenElse [.block (.mk .equal [.text "doIf", .empty]), .body [],
      .body [.mk .setVariable [.text "v", .number (-3.0)],
        .mk .forever [.body [.mk .stop [.text "stopScripts"]]]]],
    .mk .repeatTimes [.empty, .body []],
    .mk .appendToList [.number 0.5, .text ""],
    .mk .appendToList [.literal (.boolean true), .text "append:toList:"]]

theorem block_json_determines_blocks_mixed :
    Procedure.mixed.Recoverable ∧
      Procedure.read? "" Procedure.mixed.toJson.written = some { Procedure.mixed with name := "" } := by
  have hbody : Block.Recoverable Procedure.mixed.body := by decide +kernel
  have hdefaults : ∀ v ∈ Procedure.mixed.defaults, v.isKept := by decide +kernel
  exact ⟨⟨hbody, hdefaults⟩, block_json_determines_blocks.2.1 .mixed "" ⟨hbody, hdefaults⟩⟩

end SpriteCompiler
