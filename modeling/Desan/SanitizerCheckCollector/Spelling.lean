import Desan.SanitizerCheckCollector

/-! # Mach-O spellings

On Mach-O a runtime function is spelled with one more underscore, and maybe a leading
`\01`. The collector undoes the spelling before it looks at a name. -/

namespace Desan

/-! ## Names -/

def isRuntimeName (name : String) : Bool :=
  startsWith name "__asan_" || startsWith name "__ubsan_" || startsWith name "__msan_"

/-- A change of names that gives some runtime functions a Mach-O spelling. -/
structure Respelling where
  spell : String → String
  spells : ∀ name, spell name = name ∨
    isRuntimeName name = true ∧ (spell name = "_" ++ name ∨ spell name = "\x01_" ++ name)

/-- The three tools whose runtime names are undone. -/
def toolNames : List (List Char) :=
  [['a', 's', 'a', 'n', '_'], ['u', 'b', 's', 'a', 'n', '_'], ['m', 's', 'a', 'n', '_']]

/-- The characters of a runtime name. -/
theorem exists_of_isRuntimeName {name : String} (runtime : isRuntimeName name = true) :
    ∃ tool rest, name.toList = '_' :: '_' :: (tool ++ rest) ∧
      tool ∈ toolNames := by
  have split : ∀ {start : String}, startsWith name start = true →
      ∃ rest, name.toList = start.toList ++ rest := by
    intro start starts
    rcases List.isPrefixOf_iff_prefix.mp starts with ⟨rest, equal⟩
    exact ⟨rest, equal.symm⟩
  rw [isRuntimeName, Bool.or_eq_true, Bool.or_eq_true] at runtime
  rcases runtime with (asan | ubsan) | msan
  · rcases split asan with ⟨rest, equal⟩
    exact ⟨['a', 's', 'a', 'n', '_'], rest, equal, by decide⟩
  · rcases split ubsan with ⟨rest, equal⟩
    exact ⟨['u', 'b', 's', 'a', 'n', '_'], rest, equal, by decide⟩
  · rcases split msan with ⟨rest, equal⟩
    exact ⟨['m', 's', 'a', 'n', '_'], rest, equal, by decide⟩

/-- What `trim` takes from the end. -/
def trimEnd (chars : List Char) : List Char :=
  (chars.reverse.dropWhile fun char => char ∈ trimmedChars).reverse

theorem trimEnd_cons {char : Char} (stays : char ∉ trimmedChars) (chars : List Char) :
    trimEnd (char :: chars) = char :: trimEnd chars := by
  rw [trimEnd, trimEnd, List.reverse_cons, List.dropWhile_append]
  split
  · rename_i none
    have stops : ([char].dropWhile fun char => decide (char ∈ trimmedChars)) = [char] :=
      List.dropWhile_cons_of_neg (by simpa using stays)
    rw [stops, List.isEmpty_iff.mp none]
    rfl
  · rw [List.reverse_append]
    rfl

theorem trim_of_cons {name : String} {char : Char} {chars : List Char}
    (equal : name.toList = char :: chars) (stays : char ∉ trimmedChars) :
    trim name = String.ofList (char :: trimEnd chars) := by
  have front : (name.toList.dropWhile fun char => decide (char ∈ trimmedChars)) =
      char :: chars := by
    rw [equal]
    exact List.dropWhile_cons_of_neg (by simpa using stays)
  have trimmed : trim name = String.ofList (trimEnd
      (name.toList.dropWhile fun char => decide (char ∈ trimmedChars))) := rfl
  rw [trimmed, front, trimEnd_cons stays]

theorem canonical_plain {name : String} {tool tail : List Char} (isTool : tool ∈ toolNames)
    (trimmed : trim name = String.ofList ('_' :: '_' :: (tool ++ tail))) :
    canonicalCalleeName name = String.ofList ('_' :: '_' :: (tool ++ tail)) := by
  rw [canonicalCalleeName, trimmed]
  simp only [toolNames, List.mem_cons, List.not_mem_nil, or_false] at isTool
  rcases isTool with rfl | rfl | rfl <;>
    simp [consumeFront, startsWith]

theorem canonical_underscore {name : String} {tool tail : List Char} (isTool : tool ∈ toolNames)
    (trimmed : trim name = String.ofList ('_' :: '_' :: '_' :: (tool ++ tail))) :
    canonicalCalleeName name = String.ofList ('_' :: '_' :: (tool ++ tail)) := by
  rw [canonicalCalleeName, trimmed]
  simp only [toolNames, List.mem_cons, List.not_mem_nil, or_false] at isTool
  rcases isTool with rfl | rfl | rfl <;>
    simp [consumeFront, startsWith, dropFront]

theorem canonical_marked {name : String} {tool tail : List Char} (isTool : tool ∈ toolNames)
    (trimmed : trim name = String.ofList ('\x01' :: '_' :: '_' :: '_' :: (tool ++ tail))) :
    canonicalCalleeName name = String.ofList ('_' :: '_' :: (tool ++ tail)) := by
  rw [canonicalCalleeName, trimmed]
  simp only [toolNames, List.mem_cons, List.not_mem_nil, or_false] at isTool
  rcases isTool with rfl | rfl | rfl <;>
    simp [consumeFront, startsWith, dropFront]

/-- What the two tests of MemorySanitizer names look at. -/
def msanName (calleeName : String) : String :=
  let name := consumeFront calleeName "\x01"
  if startsWith name "___msan_" then dropFront name 1 else name

namespace Respelling

variable (respelling : Respelling)

/-- A respelled name differs from the name it stands for in its first characters only. -/
theorem cases (name : String) :
    respelling.spell name = name ∨ ∃ tool ∈ toolNames, ∃ rest,
      name.toList = '_' :: '_' :: (tool ++ rest) ∧
        ((respelling.spell name).toList = '_' :: '_' :: '_' :: (tool ++ rest) ∨
          (respelling.spell name).toList = '\x01' :: '_' :: '_' :: '_' :: (tool ++ rest)) := by
  rcases respelling.spells name with same | ⟨runtime, spelled⟩
  · exact .inl same
  · right
    rcases exists_of_isRuntimeName runtime with ⟨tool, rest, equal, isTool⟩
    refine ⟨tool, isTool, rest, equal, ?_⟩
    rcases spelled with spelled | spelled
    · left
      rw [spelled, String.toList_append, equal]
      rfl
    · right
      rw [spelled, String.toList_append, equal]
      rfl

theorem trimEnd_tool {tool : List Char} (isTool : tool ∈ toolNames) (rest : List Char) :
    trimEnd (tool ++ rest) = tool ++ trimEnd rest := by
  simp only [toolNames, List.mem_cons, List.not_mem_nil, or_false] at isTool
  rcases isTool with rfl | rfl | rfl <;>
    simp only [List.cons_append, List.nil_append] <;>
    repeat rw [trimEnd_cons (by decide)]

@[simp] theorem canonicalCalleeName_spell (name : String) :
    canonicalCalleeName (respelling.spell name) = canonicalCalleeName name := by
  rcases respelling.cases name with same | ⟨tool, isTool, rest, equal, spelled⟩
  · rw [same]
  · have trimmed := trim_of_cons equal (by decide)
    rw [trimEnd_cons (by decide), trimEnd_tool isTool] at trimmed
    rw [canonical_plain isTool trimmed]
    rcases spelled with spelled | spelled
    · have trimmed := trim_of_cons spelled (by decide)
      rw [trimEnd_cons (by decide), trimEnd_cons (by decide), trimEnd_tool isTool] at trimmed
      exact canonical_underscore isTool trimmed
    · have trimmed := trim_of_cons spelled (by decide)
      rw [trimEnd_cons (by decide), trimEnd_cons (by decide), trimEnd_cons (by decide),
        trimEnd_tool isTool] at trimmed
      exact canonical_marked isTool trimmed

@[simp] theorem isEmpty_spell (name : String) :
    (respelling.spell name).isEmpty = name.isEmpty := by
  rcases respelling.cases name with same | ⟨tool, isTool, rest, equal, spelled⟩
  · rw [same]
  · have isEmpty : ∀ {name : String} {char : Char} {chars : List Char},
        name.toList = char :: chars → name.isEmpty = false := by
      intro name char chars equal
      rw [← Bool.not_eq_true, String.isEmpty_iff]
      intro empty
      rw [empty] at equal
      cases equal
    rw [isEmpty equal]
    rcases spelled with spelled | spelled <;> exact isEmpty spelled

/-- The tests of MemorySanitizer names undo the spelling of these names; other names
do not pass them in any spelling. -/
theorem msanName_spell (name : String) :
    msanName (respelling.spell name) = msanName name ∨
      startsWith (msanName (respelling.spell name)) "__msan_" = false ∧
        startsWith (msanName name) "__msan_" = false := by
  rcases respelling.cases name with same | ⟨tool, isTool, rest, equal, spelled⟩
  · exact .inl (by rw [same])
  · have plain : name = String.ofList ('_' :: '_' :: (tool ++ rest)) := by
      rw [← equal, String.ofList_toList]
    simp only [toolNames, List.mem_cons, List.not_mem_nil, or_false] at isTool
    rcases spelled with spelled | spelled
    · have spelling := congrArg String.ofList spelled
      rw [String.ofList_toList] at spelling
      rw [spelling, plain]
      rcases isTool with rfl | rfl | rfl <;>
        simp [msanName, consumeFront, startsWith, dropFront, List.isPrefixOf]
    · have spelling := congrArg String.ofList spelled
      rw [String.ofList_toList] at spelling
      rw [spelling, plain]
      rcases isTool with rfl | rfl | rfl <;>
        simp [msanName, consumeFront, startsWith, dropFront, List.isPrefixOf]

theorem startsWith_msanName_spell (name : String) :
    startsWith (msanName (respelling.spell name)) "__msan_" =
      startsWith (msanName name) "__msan_" := by
  rcases respelling.msanName_spell name with same | ⟨spelled, plain⟩
  · rw [same]
  · rw [spelled, plain]

theorem startsWith_of_longer {name start longer : String}
    (prefixed : start.toList <+: longer.toList) (starts : startsWith name longer = true) :
    startsWith name start = true :=
  List.isPrefixOf_iff_prefix.mpr (prefixed.trans (List.isPrefixOf_iff_prefix.mp starts))

theorem startsWith_msanName_spell_warning (name : String) :
    startsWith (msanName (respelling.spell name)) "__msan_warning" =
      startsWith (msanName name) "__msan_warning" := by
  rcases respelling.msanName_spell name with same | ⟨spelled, plain⟩
  · rw [same]
  · have fails : ∀ {name : String}, startsWith name "__msan_" = false →
        startsWith name "__msan_warning" = false := by
      intro name fails
      rw [← Bool.not_eq_true] at fails ⊢
      intro starts
      exact fails (startsWith_of_longer (by decide +kernel) starts)
    rw [fails spelled, fails plain]

end Respelling

/-! ## Tables -/

def OtherNode.respell (respelling : Respelling) : OtherNode → OtherNode
  | .constant (.function name intrinsic) =>
      .constant (.function (respelling.spell name) intrinsic)
  | node => node

namespace ValueTable

def respell (values : ValueTable) (respelling : Respelling) : ValueTable where
  value id :=
    { values.value id with node := (values.value id).node.respell respelling }
  count := values.count

variable (values : ValueTable) (respelling : Respelling)

@[simp] theorem otherNode?_respell (value : Value) :
    (values.respell respelling).otherNode? value =
      (values.otherNode? value).map (OtherNode.respell respelling) := by
  cases value <;> rfl

@[simp] theorem isZeroIndex_respell (index : GEPIndex) :
    (values.respell respelling).isZeroIndex index = values.isZeroIndex index := by
  rw [isZeroIndex, isZeroIndex, otherNode?_respell]
  rcases values.otherNode? index.value with _ | _ | _ | constant
  · rfl
  · rfl
  · rfl
  · cases constant <;> rfl

@[simp] theorem function?_respell (value : Value) :
    (values.respell respelling).function? value =
      (values.function? value).map fun called => (respelling.spell called.1, called.2) := by
  rw [function?, function?, otherNode?_respell]
  rcases values.otherNode? value with _ | _ | _ | constant
  · rfl
  · rfl
  · rfl
  · cases constant <;> rfl

@[simp] theorem calledFunction?_respell (site : CallSite) :
    (values.respell respelling).calledFunction? site =
      (values.calledFunction? site).map fun called =>
        (respelling.spell called.1, called.2) := by
  rw [calledFunction?, calledFunction?, function?_respell]
  split <;> rfl

@[simp] theorem stripCallee_respell (fuel : Nat) (value : Value) :
    (values.respell respelling).stripCallee fuel value = values.stripCallee fuel value := by
  induction fuel generalizing value with
  | zero => rfl
  | succ fuel induction =>
      rw [stripCallee, stripCallee, otherNode?_respell]
      rcases values.otherNode? value with _ | _ | _ | constant
      · rfl
      · rfl
      · rfl
      · cases constant with
        | cast op source => cases op <;> simp [OtherNode.respell, induction]
        | getElementPtr pointer indices => simp [OtherNode.respell, induction]
        | _ => rfl

@[simp] theorem resolveCalledFunction_respell (site : CallSite) :
    (values.respell respelling).resolveCalledFunction site =
      (values.resolveCalledFunction site).map respelling.spell := by
  rw [resolveCalledFunction, resolveCalledFunction, calledFunction?_respell]
  cases values.calledFunction? site with
  | some called => rfl
  | none =>
      have count : (values.respell respelling).count = values.count := rfl
      simp only [Option.map_none, count, stripCallee_respell, otherNode?_respell]
      rcases values.otherNode? (values.stripCallee values.count site.calledOperand)
        with _ | _ | _ | constant
      · rfl
      · rfl
      · rfl
      · cases constant with
        | globalAlias aliasee =>
            cases aliasee with
            | none => rfl
            | some aliasee => simp [OtherNode.respell, Function.comp_def]
        | _ => rfl

@[simp] theorem classifyCall_respell (site : CallSite) :
    (values.respell respelling).classifyCall site = values.classifyCall site := by
  rw [classifyCall, classifyCall, resolveCalledFunction_respell]
  cases values.resolveCalledFunction site with
  | none => rfl
  | some calleeName => simp

@[simp] theorem classifyCheck_respell (op : Op) :
    (values.respell respelling).classifyCheck op = values.classifyCheck op := by
  simp only [classifyCheck, classifyCall_respell]

@[simp] theorem isCheck_respell (op : Op) :
    (values.respell respelling).isCheck op = values.isCheck op := by
  rw [isCheck, isCheck, classifyCheck_respell]

@[simp] theorem intrinsicID_respell (op : Op) :
    (values.respell respelling).intrinsicID op = values.intrinsicID op := by
  rw [intrinsicID, intrinsicID]
  cases op.callSite? with
  | none => rfl
  | some site =>
      simp only [Option.bind_some, calledFunction?_respell]
      cases values.calledFunction? site <;> rfl

@[simp] theorem isDirectMemSanRuntimeCall_respell (op : Op) :
    (values.respell respelling).isDirectMemSanRuntimeCall op =
      values.isDirectMemSanRuntimeCall op := by
  rw [isDirectMemSanRuntimeCall, isDirectMemSanRuntimeCall]
  cases op.callSite? with
  | none => rfl
  | some site =>
      simp only [Option.bind_some, calledFunction?_respell]
      cases values.calledFunction? site with
      | none => rfl
      | some called =>
          simp only [Option.map_some, Respelling.isEmpty_spell]
          have tests := respelling.startsWith_msanName_spell called.1
          simp only [msanName] at tests
          rw [tests]

end ValueTable

end Desan
