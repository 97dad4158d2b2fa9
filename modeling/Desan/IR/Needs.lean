import Desan.IR.Rewrite

/-! # What a function needs

An instruction is needed if something with an effect depends on it. Phis may be folded,
so a value counts as used where it comes out of them, and a phi counts as needed only if
it really joins two values. -/

namespace Desan

namespace Op

/-- Every way out of the terminator leads to one block. -/
def goesOneWay (op : Op) : Bool :=
  match op.successors with
  | [] => false
  | target :: rest => rest.all fun other => other = target

/-- The instruction is not there for its value alone. -/
def isRoot (op : Op) : Bool :=
  op.mayHaveSideEffects || (op.isTerminator && !op.goesOneWay)

@[simp] theorem isRoot_mapOperands (transform : Value → Value) (op : Op) :
    (op.mapOperands transform).isRoot = op.isRoot := by
  simp [isRoot, goesOneWay]

end Op

namespace Function

/-- What comes out of phis as the given value, along the entries allowed. -/
inductive Flows (function : Function) (via : InstId → BlockId → Prop) (source : Value) :
    Value → Prop where
  | self : Flows function via source source
  | phi {inst : Inst} {incoming : List (Value × BlockId)} {entry : Value × BlockId}
      (member : inst ∈ function.instructions) (isPhi : inst.op = .phi incoming)
      (inside : entry ∈ incoming) (allowed : via inst.id entry.2)
      (rest : Flows function via source entry.1) : Flows function via source inst.value

section Needs

variable (function : Function) (lost : InstId → Prop)

/-- An instruction in a block that control can reach. -/
def Present (inst : Inst) : Prop :=
  ∃ block ∈ function.blocks, function.Reachable block.id ∧ inst ∈ block.instructions

/-- What surely comes out as the value. -/
def Yields (source value : Value) : Prop :=
  function.Flows (fun inst pred => ¬lost inst ∧ function.Reachable pred) source value

/-- What may come out as the value. -/
def MayYield (source value : Value) : Prop := function.Flows (fun _ _ => True) source value

/-- Someone who has an effect depends on the instruction, and not only through what is
lost. -/
inductive Needed : InstId → Prop where
  | root {inst : Inst} (present : function.Present inst) (root : inst.op.isRoot = true)
      (kept : ¬lost inst.id) : Needed inst.id
  | operand {inst user : Inst} {value : Value} (present : function.Present inst)
      (isUser : user ∈ function.instructions) (notPhi : user.op.isPhi = false)
      (needed : Needed user.id) (operand : value ∈ user.op.operands)
      (yields : function.Yields lost inst.value value) (kept : ¬lost inst.id) :
      Needed inst.id

/-- A value that no folding of phis replaces. -/
structure Origin (source : Value) : Prop where
  notPoison : source ≠ .poison
  present : ∀ id, source = .inst id → ¬lost id ∧
    ∃ inst, function.Present inst ∧ inst.id = id ∧ inst.op.isPhi = false

/-- Two values that no folding of phis makes one. -/
structure Apart (first second : Value) : Prop where
  exists_origin : ∃ source, function.Origin lost source ∧
    function.Yields lost source first ∧ ¬function.MayYield source second
  known : ∀ id, function.MayYield (.inst id) second → id ∈ function.ids ∧ ¬lost id

/-- If the instruction is a phi, it joins two values. -/
def Firm (id : InstId) : Prop :=
  ∀ inst ∈ function.instructions, inst.id = id → ∀ incoming, inst.op = .phi incoming →
    ∃ first ∈ incoming, ∃ second ∈ incoming, function.Reachable first.2 ∧
      function.Reachable second.2 ∧ function.Apart lost first.1 second.1

structure NeedsWithout (id : InstId) : Prop where
  needed : function.Needed lost id
  firm : function.Firm lost id

/-- The function needs the instruction. -/
def Needs (id : InstId) : Prop := function.NeedsWithout (fun _ => False) id

end Needs

/-! ## Flows -/

section Flows

variable {function : Function} {via : InstId → BlockId → Prop} {source value : Value}

theorem Flows.mono {weaker : InstId → BlockId → Prop} (flows : function.Flows via source value)
    (allowed : ∀ inst pred, via inst pred → weaker inst pred) :
    function.Flows weaker source value := by
  induction flows with
  | self => exact .self
  | phi member isPhi inside via _ induction =>
      exact .phi member isPhi inside (allowed _ _ via) induction

theorem Yields.mayYield {lost : InstId → Prop} (yields : function.Yields lost source value) :
    function.MayYield source value :=
  Flows.mono yields fun _ _ _ => trivial

/-- The value is no instruction but one of the function. -/
def Known (function : Function) (value : Value) : Prop :=
  ∀ id, value = .inst id → id ∈ function.ids

theorem known_value {inst : Inst} (member : inst ∈ function.instructions) :
    function.Known inst.value := by
  intro id equal
  cases equal
  exact List.mem_map_of_mem member

theorem Flows.known (flows : function.Flows via source value)
    (known : function.Known source) : function.Known value := by
  cases flows with
  | self => exact known
  | phi member _ _ _ _ => exact known_value member

theorem Present.mem {inst : Inst} (present : function.Present inst) :
    inst ∈ function.instructions := by
  rcases present with ⟨block, blockMember, -, inside⟩
  exact mem_instructions.mpr ⟨block, blockMember, inside⟩

theorem Origin.known {lost : InstId → Prop} (origin : function.Origin lost source) :
    function.Known source := by
  intro id equal
  rcases (origin.present id equal).2 with ⟨inst, present, rfl, -⟩
  exact List.mem_map_of_mem present.mem

end Flows

/-! ## Mapped operands -/

section MapOperands

variable {function : Function} (transform : Value → Value)

theorem mem_instructions_mapOperands {inst : Inst} :
    inst ∈ (function.mapBlocks
        (Block.mapInsts (Inst.mapOperands transform))).instructions ↔
      ∃ original ∈ function.instructions, original.mapOperands transform = inst := by
  have same : (function.mapBlocks
      (Block.mapInsts (Inst.mapOperands transform))).instructions =
        function.instructions.map (Inst.mapOperands transform) := by
    simp only [instructions, blocks_mapBlocks, List.flatMap_map, List.map_flatMap,
      Block.instructions_mapInsts]
  rw [same, List.mem_map]

theorem reachable_mapOperands {block : BlockId} (reachable : function.Reachable block) :
    (function.mapBlocks (Block.mapInsts (Inst.mapOperands transform))).Reachable block := by
  apply (reachable_mapBlocks _).mpr reachable
  exact fun block _ => ⟨rfl, block.successors_mapOperands transform⟩

theorem present_mapOperands {inst : Inst} (present : function.Present inst) :
    (function.mapBlocks (Block.mapInsts (Inst.mapOperands transform))).Present
      (inst.mapOperands transform) := by
  rcases present with ⟨block, member, reachable, inside⟩
  refine ⟨_, List.mem_map_of_mem member, reachable_mapOperands transform reachable, ?_⟩
  rw [Block.instructions_mapInsts]
  exact List.mem_map_of_mem inside

theorem origin_mapOperands {lost : InstId → Prop} {source : Value} (origin : function.Origin lost source) :
    (function.mapBlocks (Block.mapInsts (Inst.mapOperands transform))).Origin lost source where
  notPoison := origin.notPoison
  present := by
    intro id equal
    rcases origin.present id equal with ⟨kept, inst, present, address, notPhi⟩
    exact ⟨kept, _, present_mapOperands transform present, address,
      (inst.op.isPhi_mapOperands transform).trans notPhi⟩

end MapOperands

/-! ## Operands that forget -/

section Forgets

variable {function : Function} {lost : InstId → Prop} {transform : Value → Value}
  (keeps : Value.KeepsConstants transform)
  (fixes : ∀ id ∈ function.ids, transform (.inst id) = .inst id)
include keeps fixes

theorem transform_known {value : Value} (known : function.Known value) :
    transform value = value := by
  cases value with
  | inst id => exact fixes id (known id rfl)
  | other id => exact keeps _ rfl
  | poison => exact keeps _ rfl

theorem yields_mapOperands {source value : Value} (yields : function.Yields lost source value)
    (known : function.Known source) :
    (function.mapBlocks (Block.mapInsts (Inst.mapOperands transform))).Yields lost source
      value := by
  induction yields with
  | self => exact .self
  | @phi inst incoming entry member isPhi inside allowed rest induction =>
      have mapped : (inst.mapOperands transform).op =
          .phi (incoming.map fun entry => (transform entry.1, entry.2)) := by
        rw [Inst.op_mapOperands, isPhi]
        rfl
      have same : transform entry.1 = entry.1 :=
        transform_known keeps fixes (Flows.known rest known)
      have stays : (function.mapBlocks (Block.mapInsts (Inst.mapOperands transform))).Flows
          (fun inst pred => ¬lost inst ∧ (function.mapBlocks
            (Block.mapInsts (Inst.mapOperands transform))).Reachable pred) source
              (transform entry.1) := by
        rw [same]
        exact induction
      have through : (function.mapBlocks
          (Block.mapInsts (Inst.mapOperands transform))).Yields lost source
            (inst.mapOperands transform).value :=
        .phi ((mem_instructions_mapOperands transform).mpr ⟨inst, member, rfl⟩) mapped
          (List.mem_map_of_mem inside)
          ⟨allowed.1, reachable_mapOperands transform allowed.2⟩ stays
      exact through

theorem mayYield_of_mapOperands {source value : Value}
    (yields : (function.mapBlocks
      (Block.mapInsts (Inst.mapOperands transform))).MayYield source value)
    (pure : ∀ id, function.MayYield (.inst id) value → id ∈ function.ids) :
    function.MayYield source value := by
  induction yields with
  | self => exact .self
  | @phi inst incoming entry member isPhi inside allowed rest induction =>
      rcases (mem_instructions_mapOperands transform).mp member with
        ⟨original, originalMember, rfl⟩
      rcases exists_phi_of_mapOperands transform isPhi with ⟨entries, originalPhi, rfl⟩
      rcases List.mem_map.mp inside with ⟨old, oldMember, rfl⟩
      have extend : ∀ id, function.MayYield (.inst id) old.1 →
          function.MayYield (.inst id) original.value := fun id flows =>
        .phi originalMember originalPhi oldMember trivial flows
      have same : transform old.1 = old.1 := by
        apply transform_known keeps fixes
        intro id equal
        apply pure id
        apply extend id
        rw [equal]
        exact .self
      have before : function.MayYield source old.1 := by
        have inner := induction
        simp only [same] at inner
        exact inner fun id flows => pure id (extend id flows)
      have whole : function.MayYield source original.value :=
        .phi originalMember originalPhi oldMember trivial before
      exact whole

theorem apart_mapOperands {first second : Value}
    (apart : function.Apart lost first second) :
    (function.mapBlocks (Block.mapInsts (Inst.mapOperands transform))).Apart lost first
      second where
  exists_origin := by
    rcases apart.exists_origin with ⟨source, origin, yields, never⟩
    refine ⟨source, origin_mapOperands transform origin,
      yields_mapOperands keeps fixes yields origin.known, ?_⟩
    intro may
    exact never (mayYield_of_mapOperands keeps fixes may fun id flows =>
      (apart.known id flows).1)
  known := by
    intro id may
    rw [ids_mapOperands]
    exact apart.known id (mayYield_of_mapOperands keeps fixes may fun id flows =>
      (apart.known id flows).1)

theorem needed_mapOperands {id : InstId} (needed : function.Needed lost id) :
    (function.mapBlocks (Block.mapInsts (Inst.mapOperands transform))).Needed lost id := by
  induction needed with
  | @root inst present root kept =>
      have still : (inst.mapOperands transform).op.isRoot = true := by
        rw [Inst.op_mapOperands, Op.isRoot_mapOperands]
        exact root
      have whole : (function.mapBlocks (Block.mapInsts (Inst.mapOperands transform))).Needed
          lost (inst.mapOperands transform).id :=
        .root (present_mapOperands transform present) still kept
      exact whole
  | @operand inst user value present isUser notPhi _ operand yields kept induction =>
      have same : transform value = value :=
        transform_known keeps fixes (Flows.known yields (known_value present.mem))
      have still : value ∈ (user.mapOperands transform).op.operands := by
        rw [Inst.op_mapOperands, Op.operands_mapOperands, ← same]
        exact List.mem_map_of_mem operand
      have comes : (function.mapBlocks (Block.mapInsts (Inst.mapOperands transform))).Yields
          lost inst.value value := yields_mapOperands keeps fixes yields (known_value present.mem)
      have whole : (function.mapBlocks (Block.mapInsts (Inst.mapOperands transform))).Needed
          lost (inst.mapOperands transform).id :=
        .operand (present_mapOperands transform present)
          ((mem_instructions_mapOperands transform).mpr ⟨user, isUser, rfl⟩)
          ((user.op.isPhi_mapOperands transform).trans notPhi) induction still comes kept
      exact whole

theorem firm_mapOperands {id : InstId} (firm : function.Firm lost id) :
    (function.mapBlocks (Block.mapInsts (Inst.mapOperands transform))).Firm lost id := by
  intro inst member address incoming isPhi
  rcases (mem_instructions_mapOperands transform).mp member with
    ⟨original, originalMember, rfl⟩
  rcases exists_phi_of_mapOperands transform isPhi with ⟨entries, originalPhi, rfl⟩
  rcases firm original originalMember address entries originalPhi with
    ⟨first, firstMember, second, secondMember, firstReachable, secondReachable, apart⟩
  refine ⟨_, List.mem_map_of_mem firstMember, _, List.mem_map_of_mem secondMember,
    reachable_mapOperands transform firstReachable,
    reachable_mapOperands transform secondReachable, ?_⟩
  have firstSame : transform first.1 = first.1 := by
    rcases apart.exists_origin with ⟨source, origin, yields, -⟩
    exact transform_known keeps fixes (Flows.known yields origin.known)
  have secondSame : transform second.1 = second.1 := by
    apply transform_known keeps fixes
    intro id equal
    apply (apart.known id _).1
    rw [equal]
    exact .self
  simp only [firstSame, secondSame]
  exact apart_mapOperands keeps fixes apart

end Forgets

/-! ## A phi that is folded -/

section Fold

variable {function : Function} {lost : InstId → Prop} {phi : Inst}
  {incoming : List (Value × BlockId)} {value : Value}

theorem reachable_replaceInst (inst : InstId) (new : Value) {block : BlockId}
    (reachable : function.Reachable block) :
    (function.replaceInst inst new).Reachable block := by
  rw [replaceInst, eraseInst]
  apply (reachable_mapBlocks _).mpr (reachable_mapOperands (Value.replace inst new) reachable)
  exact fun block _ => ⟨rfl, block.successors_erase inst⟩

theorem present_replaceInst {inst : Inst} (present : function.Present inst)
    (different : inst.id ≠ phi.id) :
    (function.replaceInst phi.id value).Present
      (inst.mapOperands (Value.replace phi.id value)) := by
  rcases present with ⟨block, blockMember, reachable, inside⟩
  refine ⟨_, List.mem_map_of_mem (List.mem_map_of_mem blockMember),
    reachable_replaceInst phi.id value reachable, ?_⟩
  rcases Block.mem_instructions.mp inside with body | last
  · exact Block.mem_instructions.mpr (.inl (List.mem_filter.mpr
      ⟨List.mem_map_of_mem body, decide_eq_true different⟩))
  · rw [last]
    exact Block.mem_instructions.mpr (.inr rfl)

/-- The phi has one value, itself aside. -/
structure Folding (function : Function) (phi : Inst) (incoming : List (Value × BlockId))
    (value : Value) : Prop where
  shaped : function.Shaped
  member : phi ∈ function.instructions
  isPhi : phi.op = .phi incoming
  other : value ≠ phi.value
  one : ∀ entry ∈ incoming, entry.1 = value ∨ entry.1 = phi.value
  source : value = .poison ∨ ∃ entry ∈ incoming, entry.1 = value

variable (folding : function.Folding phi incoming value)
include folding

/-- What comes out of anything comes out of it after the fold. -/
theorem Folding.yields {source from_ : Value} (yields : function.Yields lost source from_)
    (different : source ≠ phi.value) :
    (function.replaceInst phi.id value).Yields lost source
      (Value.replace phi.id value from_) := by
  induction yields with
  | self =>
      rw [Value.replace_of_ne different]
      exact .self
  | @phi inst entries entry member isPhi inside allowed rest induction =>
      by_cases same : inst.id = phi.id
      · have equal := folding.shaped.inst_eq member folding.member same
        rw [equal, folding.isPhi] at isPhi
        cases isPhi
        have replaced : Value.replace phi.id value inst.value = value := by
          rw [equal]
          exact Value.replace_self phi.id value
        rw [replaced]
        rcases folding.one entry inside with isValue | isSelf
        · rw [isValue, Value.replace_of_ne folding.other] at induction
          exact induction
        · rw [isSelf] at induction
          have selfReplaced : Value.replace phi.id value phi.value = value :=
            Value.replace_self phi.id value
          rw [selfReplaced] at induction
          exact induction
      · have stays : Value.replace phi.id value inst.value = inst.value := by
          apply Value.replace_of_ne
          intro equal
          exact same (Value.inst.inj equal)
        have mapped : (inst.mapOperands (Value.replace phi.id value)).op =
            .phi (entries.map fun entry => (Value.replace phi.id value entry.1, entry.2)) := by
          rw [Inst.op_mapOperands, isPhi]
          rfl
        have through : (function.replaceInst phi.id value).Yields lost source
            (inst.mapOperands (Value.replace phi.id value)).value :=
          .phi ((mem_instructions_replaceInst folding.shaped folding.member
              folding.isPhi).mpr ⟨inst, member, same, rfl⟩) mapped
            (List.mem_map_of_mem inside)
            ⟨allowed.1, reachable_replaceInst phi.id value allowed.2⟩ induction
        rw [stays]
        exact through

/-- What may come out after the fold may come out before it. -/
theorem Folding.mayYield {source after : Value}
    (yields : (function.replaceInst phi.id value).MayYield source after)
    (notPoison : source ≠ .poison) :
    ∀ from_, Value.replace phi.id value from_ = after → function.MayYield source from_ := by
  have through : ∀ {after : Value}, function.MayYield source after →
      ∀ from_, Value.replace phi.id value from_ = after → function.MayYield source from_ := by
    intro after before from_ replaced
    by_cases atPhi : from_ = phi.value
    · rw [atPhi] at replaced ⊢
      have selfReplaced : Value.replace phi.id value phi.value = value :=
        Value.replace_self phi.id value
      rw [selfReplaced] at replaced
      rw [← replaced] at before
      rcases folding.source with poison | ⟨entry, inside, equal⟩
      · rw [poison] at before
        cases before with
        | self => exact absurd rfl notPoison
      · exact .phi folding.member folding.isPhi inside trivial (equal ▸ before)
    · rw [Value.replace_of_ne atPhi] at replaced
      exact replaced ▸ before
  induction yields with
  | self => exact through .self
  | @phi inst entries entry member isPhi inside allowed rest induction =>
      rcases (mem_instructions_replaceInst folding.shaped folding.member
        folding.isPhi).mp member with ⟨original, originalMember, -, rfl⟩
      rcases exists_phi_of_mapOperands _ isPhi with ⟨originals, originalPhi, rfl⟩
      rcases List.mem_map.mp inside with ⟨old, oldMember, rfl⟩
      have before : function.MayYield source old.1 := induction old.1 rfl
      have whole : function.MayYield source original.value :=
        .phi originalMember originalPhi oldMember trivial before
      exact through whole

/-- What may come out of the phi may come out as its one value. -/
theorem Folding.mayYield_value {source from_ : Value}
    (yields : function.MayYield source from_) (atPhi : from_ = phi.value)
    (different : source ≠ phi.value) : function.MayYield source value := by
  induction yields with
  | self => exact absurd atPhi different
  | @phi inst entries entry member isPhi inside allowed rest induction =>
      have equal := folding.shaped.inst_eq member folding.member (Value.inst.inj atPhi)
      rw [equal, folding.isPhi] at isPhi
      cases isPhi
      rcases folding.one entry inside with isValue | isSelf
      · rw [isValue] at rest
        exact rest
      · exact induction isSelf

theorem Folding.origin_ne {source : Value} (origin : function.Origin lost source) :
    source ≠ phi.value := by
  intro equal
  rcases (origin.present phi.id equal).2 with ⟨inst, present, address, notPhi⟩
  rw [folding.shaped.inst_eq present.mem folding.member address, folding.isPhi] at notPhi
  cases notPhi

/-- A phi that joins two values is not folded. -/
theorem Folding.ne_of_firm {id : InstId} (firm : function.Firm lost id) : id ≠ phi.id := by
  intro equal
  rcases firm phi folding.member equal.symm incoming folding.isPhi with
    ⟨first, firstMember, second, secondMember, -, -, apart⟩
  rcases apart.exists_origin with ⟨source, origin, yields, never⟩
  have different := folding.origin_ne origin
  have value_ : function.MayYield source value := by
    have may := Yields.mayYield yields
    rcases folding.one first firstMember with isValue | isSelf
    · rw [isValue] at may
      exact may
    · exact folding.mayYield_value may isSelf different
  apply never
  rcases folding.one second secondMember with isValue | isSelf
  · rw [isValue]
    exact value_
  · rw [isSelf]
    rcases folding.source with poison | ⟨entry, inside, same⟩
    · rw [poison] at value_
      cases value_ with
      | self => exact absurd rfl origin.notPoison
    · exact .phi folding.member folding.isPhi inside trivial (same ▸ value_)

theorem Folding.origin {source : Value} (origin : function.Origin lost source) :
    (function.replaceInst phi.id value).Origin lost source where
  notPoison := origin.notPoison
  present := by
    intro id equal
    rcases origin.present id equal with ⟨kept, inst, present, address, notPhi⟩
    have different : inst.id ≠ phi.id := by
      intro same
      rw [folding.shaped.inst_eq present.mem folding.member same, folding.isPhi] at notPhi
      cases notPhi
    exact ⟨kept, _, present_replaceInst present different, address,
      (inst.op.isPhi_mapOperands _).trans notPhi⟩

/-- The folded phi comes out of nothing any more. -/
theorem Folding.gone {after : Value}
    (yields : (function.replaceInst phi.id value).MayYield phi.value after) :
    ∀ from_, Value.replace phi.id value from_ ≠ after := by
  induction yields with
  | self =>
      intro from_ replaced
      by_cases atPhi : from_ = phi.value
      · have selfReplaced : Value.replace phi.id value phi.value = value :=
          Value.replace_self phi.id value
        rw [atPhi, selfReplaced] at replaced
        exact folding.other replaced
      · rw [Value.replace_of_ne atPhi] at replaced
        exact atPhi replaced
  | phi member isPhi inside allowed rest induction =>
      rcases (mem_instructions_replaceInst folding.shaped folding.member
        folding.isPhi).mp member with ⟨original, originalMember, -, rfl⟩
      rcases exists_phi_of_mapOperands _ isPhi with ⟨originals, originalPhi, rfl⟩
      rcases List.mem_map.mp inside with ⟨old, oldMember, rfl⟩
      exact absurd rfl (induction old.1)

theorem Folding.apart {first second : Value} (apart : function.Apart lost first second) :
    (function.replaceInst phi.id value).Apart lost (Value.replace phi.id value first)
      (Value.replace phi.id value second) where
  exists_origin := by
    rcases apart.exists_origin with ⟨source, origin, yields, never⟩
    refine ⟨source, folding.origin origin,
      folding.yields yields (folding.origin_ne origin), ?_⟩
    intro may
    exact never (folding.mayYield may origin.notPoison second rfl)
  known := by
    intro id may
    have before : function.MayYield (.inst id) second :=
      folding.mayYield may Value.noConfusion second rfl
    rcases apart.known id before with ⟨member, kept⟩
    refine ⟨?_, kept⟩
    have different : id ≠ phi.id := by
      intro equal
      rw [equal] at may
      exact folding.gone may second rfl
    rcases List.mem_map.mp member with ⟨inst, instMember, rfl⟩
    exact List.mem_map.mpr ⟨_, (mem_instructions_replaceInst folding.shaped folding.member
      folding.isPhi).mpr ⟨inst, instMember, different, rfl⟩, rfl⟩

theorem Folding.needed {id : InstId} (needed : function.Needed lost id)
    (different : id ≠ phi.id) : (function.replaceInst phi.id value).Needed lost id := by
  induction needed with
  | @root inst present root kept =>
      have still : (inst.mapOperands (Value.replace phi.id value)).op.isRoot = true := by
        rw [Inst.op_mapOperands, Op.isRoot_mapOperands]
        exact root
      have whole : (function.replaceInst phi.id value).Needed lost
          (inst.mapOperands (Value.replace phi.id value)).id :=
        .root (present_replaceInst present different) still kept
      exact whole
  | @operand inst user from_ present isUser notPhi _ operand yields kept induction =>
      have userDifferent : user.id ≠ phi.id := by
        intro same
        rw [folding.shaped.inst_eq isUser folding.member same, folding.isPhi] at notPhi
        cases notPhi
      have still : Value.replace phi.id value from_ ∈
          (user.mapOperands (Value.replace phi.id value)).op.operands := by
        rw [Inst.op_mapOperands, Op.operands_mapOperands]
        exact List.mem_map_of_mem operand
      have comes : (function.replaceInst phi.id value).Yields lost inst.value
          (Value.replace phi.id value from_) :=
        folding.yields yields fun equal => different (Value.inst.inj equal)
      have whole : (function.replaceInst phi.id value).Needed lost
          (inst.mapOperands (Value.replace phi.id value)).id :=
        .operand (present_replaceInst present different)
          ((mem_instructions_replaceInst folding.shaped folding.member folding.isPhi).mpr
            ⟨user, isUser, userDifferent, rfl⟩)
          ((user.op.isPhi_mapOperands _).trans notPhi) (induction userDifferent) still comes kept
      exact whole

theorem Folding.firm {id : InstId} (firm : function.Firm lost id) :
    (function.replaceInst phi.id value).Firm lost id := by
  intro inst member address entries isPhi
  rcases (mem_instructions_replaceInst folding.shaped folding.member
    folding.isPhi).mp member with ⟨original, originalMember, -, rfl⟩
  rcases exists_phi_of_mapOperands _ isPhi with ⟨originals, originalPhi, rfl⟩
  rcases firm original originalMember address originals originalPhi with
    ⟨first, firstMember, second, secondMember, firstReachable, secondReachable, apart⟩
  exact ⟨_, List.mem_map_of_mem firstMember, _, List.mem_map_of_mem secondMember,
    reachable_replaceInst phi.id value firstReachable,
    reachable_replaceInst phi.id value secondReachable, folding.apart apart⟩

end Fold

theorem Folding.shaped_replaceInst {function : Function} {phi : Inst}
    {incoming : List (Value × BlockId)} {value : Value}
    (folding : function.Folding phi incoming value) :
    (function.replaceInst phi.id value).Shaped := by
  have edits : function.Edits Block.KeepsTerminator (function.replaceInst phi.id value) := by
    apply edits_replaceInst
    intro other member equal
    rw [folding.shaped.inst_eq member folding.member equal, folding.isPhi]
    rfl
  exact edits.shaped folding.shaped

theorem NeedsWithout.folds {before after : Function} {lost : InstId → Prop} {id : InstId}
    (shaped : before.Shaped) (needs : before.NeedsWithout lost id)
    (folds : before.Folds after) : after.NeedsWithout lost id := by
  induction folds with
  | refl => exact needs
  | step member isPhi other one source _ induction =>
      have folding : Folding _ _ _ _ := ⟨shaped, member, isPhi, other, one, source⟩
      exact induction folding.shaped_replaceInst
        ⟨folding.needed needs.needed (folding.ne_of_firm needs.firm), folding.firm needs.firm⟩

theorem NeedsWithout.forgets {before after : Function} {lost : InstId → Prop} {id : InstId}
    (needs : before.NeedsWithout lost id) (forgets : before.Forgets after) :
    after.NeedsWithout lost id := by
  rcases forgets with ⟨transform, keeps, fixes, rfl⟩
  exact ⟨needed_mapOperands keeps fixes needs.needed, firm_mapOperands keeps fixes needs.firm⟩

end Function

end Desan
