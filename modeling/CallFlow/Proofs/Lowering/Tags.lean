/-
Which tags lowering asks for.

Every node of a program carries a tag, and the stamps of a program list them all, each with the
kind of its node. Lowering asks every node for the tag of its kind, wherever it stands, but for
the identifiers: their tags are never read. So a program is accepted exactly when all its other
tags are right and the same program with all tags put right is accepted, and both come to the
same module (`lowerProgram_eq_ok_iff_tags`).

The checks are made in different places: an import and a function are asked when they are
registered, what is in a function when its body is lowered, an export last. What each place asks
for is known from the conditions under which it succeeds; here they are put together, node by
node. That nothing else depends on a tag is likeness with equal names.
-/
import CallFlow.Proofs.Lowering.Likeness
import CallFlow.Proofs.Lowering.Programs

namespace CallFlow

open CallFlow.Tree (Tagged)

namespace Tree

-- ================================================ statement vocabulary

/-- The kind of a node and the tag that it carries. -/
structure Stamp where
  kind : NodeKind
  tag : String
  deriving DecidableEq

/-- The tag is that of the kind. -/
def Stamp.IsRight (t : Stamp) : Prop :=
  t.tag = t.kind.tag

instance (t : Stamp) : Decidable t.IsRight :=
  inferInstanceAs (Decidable (t.tag = t.kind.tag))

/-- The stamp of one node. -/
def stamp {α : Type} [Node α] (x : α) : Stamp where
  kind := Node.kind α
  tag := Node.tag x

/-- The nodes of a call. -/
def Call.stamps (c : Call) : List Stamp :=
  [stamp c, stamp c.target, stamp c.callee]

/-- The nodes of a loop. -/
def Loop.stamps (l : Loop) : List Stamp :=
  stamp l :: stamp l.condition :: l.calls.flatMap Call.stamps

/-- The nodes of a variable. -/
def Variable.stamps (v : Variable) : List Stamp :=
  [stamp v, stamp v.id]

/-- The nodes of a body. -/
def Body.stamps (b : Body) : List Stamp :=
  stamp b :: b.vars.flatMap Variable.stamps ++ b.calls.flatMap Call.stamps
    ++ b.loop.toList.flatMap Loop.stamps

/-- The nodes of a parameter. -/
def Param.stamps (q : Param) : List Stamp :=
  [stamp q, stamp q.id]

/-- The nodes of a function. -/
def Function.stamps (f : Function) : List Stamp :=
  stamp f :: stamp f.id :: f.params.flatMap Param.stamps ++ f.body.stamps

/-- The nodes of an import. -/
def Import.stamps (i : Import) : List Stamp :=
  [stamp i, stamp i.id]

/-- The nodes of an export. -/
def Export.stamps (e : Export) : List Stamp :=
  [stamp e, stamp e.id]

/-- All nodes of a program. -/
def Program.stamps (p : Program) : List Stamp :=
  stamp p :: p.imports.flatMap Import.stamps ++ p.functions.flatMap Function.stamps
    ++ p.exports.flatMap Export.stamps

/-- An identifier with its tag put right. -/
def Identifier.retag (i : Identifier) : Identifier :=
  { i with tag := NodeKind.identifier.tag }

/-- A call with all tags put right. -/
def Call.retag (c : Call) : Call :=
  { c with tag := NodeKind.callStatement.tag, target := c.target.retag, callee := c.callee.retag }

/-- A loop with all tags put right. -/
def Loop.retag (l : Loop) : Loop :=
  { l with
    tag := NodeKind.conditionalLoop.tag
    condition := l.condition.retag
    calls := l.calls.map Call.retag }

/-- A variable with all tags put right. -/
def Variable.retag (v : Variable) : Variable :=
  { v with tag := NodeKind.variableDeclaration.tag, id := v.id.retag }

/-- A body with all tags put right. -/
def Body.retag (b : Body) : Body :=
  { b with
    tag := NodeKind.functionBody.tag
    vars := b.vars.map Variable.retag
    calls := b.calls.map Call.retag
    loop := b.loop.map Loop.retag }

/-- A parameter with all tags put right. -/
def Param.retag (q : Param) : Param :=
  { q with tag := NodeKind.param.tag, id := q.id.retag }

/-- A function with all tags put right. -/
def Function.retag (f : Function) : Function :=
  { f with
    tag := NodeKind.functionDeclaration.tag
    id := f.id.retag
    params := f.params.map Param.retag
    body := f.body.retag }

/-- An import with all tags put right. -/
def Import.retag (i : Import) : Import :=
  { i with tag := NodeKind.functionImport.tag, id := i.id.retag }

/-- An export with all tags put right. -/
def Export.retag (e : Export) : Export :=
  { e with tag := NodeKind.functionExport.tag, id := e.id.retag }

/-- A program with all tags put right. -/
def Program.retag (p : Program) : Program :=
  { p with
    tag := NodeKind.root.tag
    imports := p.imports.map Import.retag
    functions := p.functions.map Function.retag
    exports := p.exports.map Export.retag }

-- ================================================ the nodes of a tree

/-- The stamps of nodes that lowering asks for their tags are right. -/
def TagsHold (ts : List Stamp) : Prop :=
  ∀ t ∈ ts, t.kind ≠ .identifier → t.IsRight

theorem tagsHold_nil : TagsHold [] :=
  List.forall_mem_nil _

/-- Tags of nodes one behind the other hold if both parts do. -/
theorem tagsHold_append {ts us : List Stamp} : TagsHold (ts ++ us) ↔ TagsHold ts ∧ TagsHold us :=
  List.forall_mem_append

/-- The tag of an identifier is looked at by nobody, so it can be left
out. -/
theorem tagsHold_identifier {i : Identifier} {ts : List Stamp} :
    TagsHold (stamp i :: ts) ↔ TagsHold ts := by
  unfold TagsHold
  rw [List.forall_mem_cons]
  exact ⟨And.right, fun h => ⟨fun hkind => absurd rfl hkind, h⟩⟩

/-- A node that is no identifier must carry the tag of its kind. -/
theorem tagsHold_node {α : Type} [Node α] (x : α) {ts : List Stamp}
    (hkind : Node.kind α ≠ .identifier) :
    TagsHold (stamp x :: ts) ↔ Tagged x ∧ TagsHold ts := by
  unfold TagsHold
  rw [List.forall_mem_cons]
  exact ⟨fun h => ⟨h.1 hkind, h.2⟩, fun h => ⟨fun _ => h.1, h.2⟩⟩

/-- Of a node with its name, the node alone must carry the tag of its
kind. -/
theorem tagsHold_named {α : Type} [Node α] (x : α) (i : Identifier)
    (hkind : Node.kind α ≠ .identifier) : TagsHold [stamp x, stamp i] ↔ Tagged x := by
  rw [tagsHold_node x hkind, tagsHold_identifier]
  exact and_iff_left tagsHold_nil

/-- The tags of nodes in a list hold if those of each node do. -/
theorem tagsHold_flatMap {α : Type} {stamps : α → List Stamp} {P : α → Prop}
    (h : ∀ a, TagsHold (stamps a) ↔ P a) {as : List α} :
    TagsHold (as.flatMap stamps) ↔ ∀ a ∈ as, P a := by
  induction as with
  | nil => exact ⟨fun _ => List.forall_mem_nil _, fun _ => tagsHold_nil⟩
  | cons a as ih => rw [List.flatMap_cons, tagsHold_append, h, ih, List.forall_mem_cons]

theorem Call.tagsHold_stamps (c : Call) : TagsHold c.stamps ↔ Tagged c := by
  unfold stamps
  rw [tagsHold_node c (by decide), tagsHold_identifier, tagsHold_identifier]
  exact and_iff_left tagsHold_nil

/-- Of a loop its own tag is checked, and then those of its calls. -/
theorem Loop.tagsHold_stamps (l : Loop) :
    TagsHold l.stamps ↔ Tagged l ∧ ∀ c ∈ l.calls, Tagged c := by
  unfold stamps
  rw [tagsHold_node l (by decide), tagsHold_identifier, tagsHold_flatMap Call.tagsHold_stamps]

/-- The tags of a function are those that lowering asks for when it
registers the function and when it lowers the body, and those of calls
beside a loop node. -/
theorem Function.tagsHold_stamps (f : Function) :
    TagsHold f.stamps ↔ Tagged f ∧ f.RightlyTagged ∧ ∀ c ∈ f.body.calls, Tagged c := by
  have hparams : TagsHold (f.params.flatMap Param.stamps) ↔ ∀ q ∈ f.params, Tagged q :=
    tagsHold_flatMap fun q : Param => tagsHold_named q q.id (by decide)
  have hvars : TagsHold (f.body.vars.flatMap Variable.stamps) ↔ ∀ v ∈ f.body.vars, Tagged v :=
    tagsHold_flatMap fun v : Variable => tagsHold_named v v.id (by decide)
  unfold stamps Body.stamps
  rw [List.cons_append, List.cons_append, tagsHold_node f (by decide), tagsHold_identifier,
    tagsHold_append, List.append_assoc, List.cons_append, tagsHold_node f.body (by decide),
    tagsHold_append, tagsHold_append, hparams, hvars, tagsHold_flatMap Call.tagsHold_stamps,
    tagsHold_flatMap Loop.tagsHold_stamps]
  refine and_congr_right fun _ => ⟨fun h => ?_, fun h => ?_⟩
  · obtain ⟨hparams, hbody, hvars, hcalls, hloop⟩ := h
    refine ⟨⟨hparams, hbody, hvars, fun l hl => (hloop l (Option.mem_toList.mpr hl)).1, ?_⟩, hcalls⟩
    unfold Body.allCalls
    cases hl : f.body.loop with
    | none => exact hcalls
    | some l => exact (hloop l (by rw [hl]; exact List.mem_cons_self)).2
  · obtain ⟨h, hcalls⟩ := h
    refine ⟨h.params, h.body, h.vars, hcalls, fun l hl => ?_⟩
    have hloop : f.body.loop = some l := Option.mem_toList.mp hl
    refine ⟨h.loop l hloop, ?_⟩
    have hall := h.calls
    unfold Body.allCalls at hall
    rwa [hloop] at hall

/-- The tags that are checked in a program: its own, those of imports,
functions and exports, and those inside functions. -/
theorem Program.tagsHold_stamps (p : Program) :
    TagsHold p.stamps ↔ Tagged p ∧ (∀ i ∈ p.imports, Tagged i)
      ∧ (∀ f ∈ p.functions, Tagged f ∧ f.RightlyTagged ∧ ∀ c ∈ f.body.calls, Tagged c)
      ∧ ∀ e ∈ p.exports, Tagged e := by
  have himports : TagsHold (p.imports.flatMap Import.stamps) ↔ ∀ i ∈ p.imports, Tagged i :=
    tagsHold_flatMap fun i : Import => tagsHold_named i i.id (by decide)
  have hexports : TagsHold (p.exports.flatMap Export.stamps) ↔ ∀ e ∈ p.exports, Tagged e :=
    tagsHold_flatMap fun e : Export => tagsHold_named e e.id (by decide)
  unfold stamps
  rw [List.append_assoc, List.cons_append, tagsHold_node p (by decide), tagsHold_append,
    tagsHold_append, himports, hexports, tagsHold_flatMap Function.tagsHold_stamps]

-- ================================================== putting tags right

/-- To set the tags right does not change which calls there are. -/
theorem Body.allCalls_retag (b : Body) : b.retag.allCalls = b.allCalls.map Call.retag := by
  unfold allCalls retag
  cases b.loop <;> rfl

theorem Operand.alike_refl (o : Operand) : o.Alike Eq o := by
  unfold Operand.Alike
  cases o.kind with
  | error e => exact .none
  | ok k =>
    cases k with
    | reference name => exact .some (.reference rfl)
    | integer type n => exact .some (.integer type n)
    | float x => exact .some (.float x)
    | void => exact .some .void

/-- A variable is like itself with the tags set right. -/
theorem Variable.alike_retag (v : Variable) : v.Alike Eq v.retag := by
  refine ⟨rfl, rfl, ?_⟩
  show Option.Rel _ v.init v.init
  cases v.init with
  | none => exact .none
  | some o => exact .some o.alike_refl

theorem Call.alike_retag (c : Call) : c.Alike Eq c.retag :=
  ⟨rfl, rfl, List.forall₂_same.mpr fun o _ => o.alike_refl⟩

/-- Putting tags right changes nothing but tags. -/
theorem Function.alike_retag (f : Function) : f.Alike Eq f.retag := by
  refine ⟨rfl, ?_, rfl, ?_, ?_, ?_, List.map_eq_nil_iff.symm⟩
  · show List.Forall₂ _ f.params (f.params.map _)
    rw [List.forall₂_map_right_iff, List.forall₂_same]
    exact fun q _ => ⟨rfl, rfl⟩
  · show List.Forall₂ _ f.body.vars (f.body.vars.map _)
    rw [List.forall₂_map_right_iff, List.forall₂_same]
    exact fun v _ => v.alike_retag
  · show Option.Rel _ f.body.loop (f.body.loop.map _)
    cases f.body.loop with
    | none => exact .none
    | some l => exact .some rfl
  · show List.Forall₂ _ f.body.allCalls f.body.retag.allCalls
    rw [Body.allCalls_retag, List.forall₂_map_right_iff, List.forall₂_same]
    exact fun c _ => c.alike_retag

/-- After all tags are put right, those that lowering asks for are. -/
theorem Function.rightlyTagged_retag (f : Function) : f.retag.RightlyTagged := by
  refine ⟨fun q hq => ?_, rfl, fun v hv => ?_, fun l hl => ?_, fun c hc => ?_⟩
  · obtain ⟨q', -, rfl⟩ := List.mem_map.mp hq
    rfl
  · obtain ⟨v', -, rfl⟩ := List.mem_map.mp hv
    rfl
  · obtain ⟨l', -, rfl⟩ := Option.map_eq_some_iff.mp hl
    rfl
  · have hc' : c ∈ f.body.retag.allCalls := hc
    rw [Body.allCalls_retag] at hc'
    obtain ⟨c', -, rfl⟩ := List.mem_map.mp hc'
    rfl

end Tree

/-- Lowering a function that is tagged rightly does not depend on any
other tag. Functions that are alike are lowered alike, and a function is
like itself with other tags. -/
theorem outcome_lowerFunction_retag {functions : FunctionTable} {f : Tree.Function} {g : Function}
    (htags : f.RightlyTagged) :
    (lowerFunction functions f.retag).outcome = .ok g ↔
      (lowerFunction functions f).outcome = .ok g := by
  have hlike := f.alike_retag
  have hnames : f.retag.layout.names = f.layout.names := by
    have hall := (hlike.layout matching_eq).names
    rw [List.forall₂_eq_eq_eq] at hall
    exact hall.symm
  refine ⟨fun hg => ?_, fun hg => ?_⟩
  · rw [outcome_lowerFunction_of_alike matching_eq.symm hlike.symm htags hg]
    obtain ⟨inits, calls, guard, slot, -, rfl⟩ := outcome_lowerFunction_eq_ok.mp hg
    rw [← hnames]
    rfl
  · rw [outcome_lowerFunction_of_alike matching_eq hlike f.rightlyTagged_retag hg]
    obtain ⟨inits, calls, guard, slot, -, rfl⟩ := outcome_lowerFunction_eq_ok.mp hg
    rw [hnames]
    rfl

-- ======================================================== the programs

theorem callables_retag (p : Tree.Program) : p.retag.callables = p.callables := by
  have hparams : ∀ f : Tree.Function, f.retag.callable = f.callable := by
    intro f
    unfold Tree.Function.callable Tree.Function.retag
    rw [List.map_map]
    rfl
  have hfunctions : (p.functions.map Tree.Function.retag).map Tree.Function.callable
      = p.functions.map Tree.Function.callable := by
    rw [List.map_map]
    exact List.map_congr_left fun f _ => hparams f
  unfold Tree.Program.callables
  show (p.imports.map Tree.Import.retag).map Tree.Import.callable ++ _
    ++ (p.functions.map Tree.Function.retag).map Tree.Function.callable = _
  rw [hfunctions, List.map_map]
  rfl

/-- Tags play no part in the module that is made of lowered functions. -/
theorem loweredModule_retag (memory : Memory) (p : Tree.Program) (gs : List Function) :
    loweredModule memory p.retag gs = loweredModule memory p gs := by
  unfold loweredModule
  show Module.mk ((p.imports.map Tree.Import.retag).map lowerImport) _
    ((p.exports.map Tree.Export.retag).map loweredExport) _ = _
  rw [List.map_map, List.map_map]
  rfl

/-- A program that lowers carries every tag that is asked for, wherever
the node stands. -/
theorem tagsHold_of_loweredProgram {p : Tree.Program} {gs : List Function}
    (h : LoweredProgram p gs) : Tree.TagsHold p.stamps := by
  refine p.tagsHold_stamps.mpr ⟨h.tagged, h.registered.imports, fun f hf => ?_,
    fun e he => (h.exports e he).1⟩
  obtain ⟨g, -, hg⟩ := exists_right_of_forall₂ h.functions hf
  obtain ⟨inits, calls, guard, slot, hparts, -⟩ := outcome_lowerFunction_eq_ok.mp hg
  have htags := hparts.rightlyTagged
  refine ⟨(h.registered.functions f hf).1, htags, fun c hc => ?_⟩
  cases hloop : f.body.loop with
  | some l =>
    -- beside a loop node there are no calls
    rw [(hparts.guarded.loop l hloop).2] at hc
    cases hc
  | none =>
    refine htags.calls c ?_
    unfold Tree.Body.allCalls
    rwa [hloop]

/-- Where imports and functions have their tags, setting all tags right
does not change whether the program is registered. -/
theorem registered_retag {p : Tree.Program} (himports : ∀ i ∈ p.imports, Tagged i)
    (hfunctions : ∀ f ∈ p.functions, Tagged f) : p.retag.Registered ↔ p.Registered := by
  refine ⟨fun h => ⟨himports, fun f hf => ⟨hfunctions f hf, fun q hq => ?_⟩, ?_⟩,
    fun h => ⟨fun i hi => ?_, fun f hf => ?_, ?_⟩⟩
  · exact (h.functions f.retag (List.mem_map_of_mem hf)).2 q.retag (List.mem_map_of_mem hq)
  · rw [← callables_retag]
    exact h.nodup
  · obtain ⟨i', -, rfl⟩ := List.mem_map.mp hi
    rfl
  · obtain ⟨f', hf', rfl⟩ := List.mem_map.mp hf
    refine ⟨rfl, fun q hq => ?_⟩
    obtain ⟨q', hq', rfl⟩ := List.mem_map.mp hq
    exact (h.functions f' hf').2 q' hq'
  · rw [callables_retag]
    exact h.nodup

/-- A program whose tags are right where they are asked for lowers as it
does with all tags put right. Together with the lemma on tags that are
asked for, this says which tags matter. -/
theorem loweredProgram_retag {p : Tree.Program} {gs : List Function}
    (htags : Tree.TagsHold p.stamps) : LoweredProgram p.retag gs ↔ LoweredProgram p gs := by
  obtain ⟨hprogram, himports, hfunctions, hexports⟩ := p.tagsHold_stamps.mp htags
  have hregistered := registered_retag himports fun f hf => (hfunctions f hf).1
  have hrightly : ∀ f ∈ p.functions, f.RightlyTagged := fun f hf => (hfunctions f hf).2.1
  refine ⟨fun h => ⟨hprogram, hregistered.mp h.registered, ?_, fun e he => ⟨hexports e he, ?_⟩⟩,
    fun h => ⟨rfl, hregistered.mpr h.registered, ?_, fun e he => ?_⟩⟩
  · have hall := h.functions
    rw [callables_retag] at hall
    replace hall := List.forall₂_map_left_iff.mp hall
    exact ((List.forall₂_and_left _ _).mpr ⟨hrightly, hall⟩).imp
      fun f g hg => (outcome_lowerFunction_retag hg.1).mp hg.2
  · rw [← callables_retag]
    exact (h.exports e.retag (List.mem_map_of_mem he)).2
  · rw [callables_retag]
    refine List.forall₂_map_left_iff.mpr ?_
    exact ((List.forall₂_and_left _ _).mpr ⟨hrightly, h.functions⟩).imp
      fun f g hg => (outcome_lowerFunction_retag hg.1).mpr hg.2
  · obtain ⟨e', he', rfl⟩ := List.mem_map.mp he
    rw [callables_retag]
    exact ⟨rfl, (h.exports e' he').2⟩

/-- A node that is no identifier never lowers with a wrong tag, and the
tag of an identifier is never read: a session lowers a program exactly
when every other node, wherever it stands, carries the tag of its kind
and the session lowers the program with all tags put right, which gives
the same module. -/
theorem lowerProgram_eq_ok_iff_tags (s : Session) (p : Tree.Program) (m : Module) :
    (s.lowerProgram p).2.outcome = .ok m ↔
      (∀ t ∈ p.stamps, t.kind ≠ .identifier → t.IsRight)
        ∧ (s.lowerProgram p.retag).2.outcome = .ok m := by
  simp only [outcome_lowerProgram_eq_ok, loweredModule_retag]
  refine ⟨fun h => ?_, fun h => ?_⟩
  · obtain ⟨gs, hlowered, rfl⟩ := h
    have htags := tagsHold_of_loweredProgram hlowered
    exact ⟨htags, gs, (loweredProgram_retag htags).mpr hlowered, rfl⟩
  · obtain ⟨htags, gs, hlowered, rfl⟩ := h
    exact ⟨gs, (loweredProgram_retag htags).mp hlowered, rfl⟩

/-- A program with an identifier in each place where there can be one,
all with a wrong tag. -/
def Tree.Program.misnamed : Tree.Program :=
  let name (n : String) : Identifier := { tag := "Name", name := n }
  { imports := [{ id := name "next", module := "env", base := "next", params := [.i32]
                  result := .i32 }]
    functions := [{ id := name "run"
                    params := [{ id := name "n", type := .i32 }]
                    result := .i32
                    body := { vars := [{ id := name "k", type := .i32
                                         init := some (.reference "n") }]
                              loop := some { condition := name "k"
                                             calls := [{ target := name "k", callee := name "next"
                                                         args := [.reference "k"] }] } } }]
    exports := [{ id := name "run", name := "run" }] }

/-- All eight identifiers of `misnamed` carry a wrong tag, and it
lowers. -/
theorem misnamed_lowers :
    (Tree.Program.misnamed.stamps.filter fun t => !decide t.IsRight)
        = List.replicate 8 ⟨.identifier, "Name"⟩
      ∧ ∃ m, (lower {} .misnamed).outcome = .ok m :=
  ⟨by decide, _, rfl⟩

end CallFlow
