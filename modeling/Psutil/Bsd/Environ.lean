import Psutil.Common.Text

/-!
# `psutil_proc_environ` on BSD (`arch/bsd/proc.c:234`)

| here | there |
| --- | --- |
| `setVariable` | the body of the loop (`:381`) |
| `procEnviron` | what the function does with the strings of `kvm_getenvv` |

The file system encoding is UTF-8. The names go through `PyUnicode_FromString`, which does not escape, and the values through
`PyUnicode_DecodeFSDefault`, which does. `procEnviron_agrees_iff`: the C code and `parse_environ_block` make the same of strings
whose names are UTF-8 and not empty, and of no others.
-/

namespace Psutil.Bsd

open Lib Common

/-- `strchr(env, '=')`, as the text before it and the one after it. -/
def strchrEq (env : Bytes) : Option (Bytes × Bytes) :=
  (env.findIdx? (· = byte '=')).map fun i => (env.take i, env.drop (i + 1))

/-- One round of the loop. -/
def setVariable (retdict : Dict Text Text) (env : Bytes) : Except Exc (Dict Text Text) :=
  match strchrEq env with
  | none => .ok retdict
  | some (name, s) =>
    let value := FsEncoding.utf8.decode s
    match Utf8.decodeStrict name with
    | none => .error .unicodeDecodeError
    | some key => .ok (retdict.set key value)

/-- `envs` are the strings, or the error that is made of `errno`. -/
def procEnviron (envs : Except Exc (List Bytes)) : Except Exc (Dict Text Text) := do
  (← envs).foldlM setVariable ∅

/-! ## One string -/

/-- The name of a variable: what is before the first `=`, if there is one. -/
def name? (env : Bytes) : Option Bytes := (strchrEq env).map Prod.fst

theorem strchrEq_append {name : Bytes} (h : byte '=' ∉ name) (value : Bytes) :
    strchrEq (name ++ byte '=' :: value) = some (name, value) := by
  rw [strchrEq, findIdx?_append_cons h]
  simp

theorem strchrEq_of_notMem {env : Bytes} (h : byte '=' ∉ env) : strchrEq env = none := by
  rw [strchrEq, findIdx?_of_notMem h]
  rfl

/-- The names that both parsers accept. -/
def NameOk (name : Bytes) : Prop := name ≠ [] ∧ (Utf8.decodeStrict name).isSome

/-- What a string assigns, by the portable parser. -/
def portable (env : Bytes) : Option (Text × Text) := assignment textDelims none (FsEncoding.utf8.decode env)

theorem env_cases (env : Bytes) : byte '=' ∉ env ∨ ∃ name value, byte '=' ∉ name ∧ env = name ++ byte '=' :: value :=
  equal_cases byteDelims env

/-- What the C code does with a string. -/
theorem setVariable_append {name : Bytes} (h : byte '=' ∉ name) (value : Bytes) (retdict : Dict Text Text) :
    setVariable retdict (name ++ byte '=' :: value) = match Utf8.decodeStrict name with
      | none => .error .unicodeDecodeError
      | some key => .ok (retdict.set key (FsEncoding.utf8.decode value)) := by
  rw [setVariable, strchrEq_append h]

/-- What the portable parser does with it. -/
theorem portable_append {name : Bytes} (h : byte '=' ∉ name) (hne : name ≠ []) (value : Bytes) :
    portable (name ++ byte '=' :: value) = some (FsEncoding.utf8.decode name, FsEncoding.utf8.decode value) := by
  rw [portable, FsEncoding.utf8.append (by decide)]
  exact assignment_append textDelims none
    ⟨mt FsEncoding.utf8.decode_eq_nil.1 hne, fun hc => h (FsEncoding.utf8.mem (b := byte '=') (by decide) hc)⟩ _

/-- A string whose name is well formed, or that has none, is set as the portable parser has it. -/
theorem setVariable_ok {env : Bytes} (h : ∀ name, name? env = some name → NameOk name) (retdict : Dict Text Text) :
    setVariable retdict env = .ok (retdict.update (portable env).toList) := by
  rcases env_cases env with hno | ⟨name, value, hname, rfl⟩
  · have hno' : textDelims.eq ∉ FsEncoding.utf8.decode env := fun hc => hno (FsEncoding.utf8.mem (b := byte '=') (by decide) hc)
    rw [setVariable, strchrEq_of_notMem hno, portable, assignment_of_notMem _ _ hno']
    rfl
  · obtain ⟨hne, hvalid⟩ := h name (by rw [name?, strchrEq_append hname]; rfl)
    obtain ⟨key, hkey⟩ := Option.isSome_iff_exists.1 hvalid
    have hdecode : FsEncoding.utf8.decode name = key := Utf8.decode_of_decodeStrict hkey
    rw [setVariable_append hname, portable_append hname hne, hkey, hdecode]
    rfl

/-- After a round that ends well, the name of the string is a key, and so is every name before. -/
theorem setVariable_mem {env : Bytes} {retdict retdict' : Dict Text Text} (h : setVariable retdict env = .ok retdict') :
    (∀ name, name? env = some name → ∃ key ∈ retdict', Utf8.decodeStrict name = some key) ∧ ∀ key ∈ retdict, key ∈ retdict' := by
  rcases env_cases env with hno | ⟨name, value, hname, rfl⟩
  · rw [setVariable, strchrEq_of_notMem hno] at h
    obtain rfl := Except.ok.inj h
    refine ⟨fun name hname => ?_, fun key hkey => hkey⟩
    rw [name?, strchrEq_of_notMem hno] at hname
    cases hname
  · rw [setVariable_append hname] at h
    cases hkey : Utf8.decodeStrict name with
    | none =>
      rw [hkey] at h
      cases h
    | some key =>
      rw [hkey] at h
      obtain rfl := Except.ok.inj h
      refine ⟨fun name' hname' => ?_, fun key' hkey' => Dict.mem_set.2 (Or.inr hkey')⟩
      rw [name?, strchrEq_append hname] at hname'
      obtain rfl := Option.some.inj hname'
      exact ⟨key, Dict.mem_set.2 (Or.inl rfl), hkey⟩

/-! ## The loop -/

/-- Strings with well-formed names: one after the other, both parsers agree. -/
theorem foldlM_ok : ∀ {envs : List Bytes} {retdict : Dict Text Text}, (∀ env ∈ envs, ∀ name, name? env = some name → NameOk name) →
    envs.foldlM setVariable retdict = .ok (retdict.update (envs.filterMap portable))
  | [], _, _ => rfl
  | env :: envs, retdict, h => by
    rw [List.foldlM_cons, setVariable_ok (h env List.mem_cons_self)]
    have htail : envs.foldlM setVariable (retdict.update (portable env).toList) =
        .ok ((retdict.update (portable env).toList).update (envs.filterMap portable)) :=
      foldlM_ok fun env' henv' => h env' (List.mem_cons_of_mem env henv')
    rw [← Dict.update_append] at htail
    refine htail.trans (congrArg (fun l => Except.ok (retdict.update l)) ?_)
    rw [List.filterMap_cons]
    cases portable env <;> rfl

/-- The names of all strings are keys in the end. -/
theorem mem_of_foldlM : ∀ {envs : List Bytes} {retdict d : Dict Text Text}, envs.foldlM setVariable retdict = .ok d →
    (∀ env ∈ envs, ∀ name, name? env = some name → ∃ key ∈ d, Utf8.decodeStrict name = some key) ∧ ∀ key ∈ retdict, key ∈ d
  | [], _, _, h => by
    obtain rfl := Except.ok.inj h
    exact ⟨fun env henv => absurd henv List.not_mem_nil, fun key hkey => hkey⟩
  | env :: envs, retdict, d, h => by
    rw [List.foldlM_cons] at h
    cases hround : setVariable retdict env with
    | error e =>
      rw [hround] at h
      cases h
    | ok retdict' =>
      rw [hround] at h
      obtain ⟨hname, hkeep⟩ := setVariable_mem hround
      obtain ⟨hnames, hkeep'⟩ := mem_of_foldlM h
      refine ⟨?_, fun key hkey => hkeep' key (hkeep key hkey)⟩
      rw [List.forall_mem_cons]
      refine ⟨fun name h => ?_, hnames⟩
      obtain ⟨key, hkey, hvalid⟩ := hname name h
      exact ⟨key, hkeep' key hkey, hvalid⟩

/-- What the portable parser makes of the strings. -/
theorem parseEnvironBlock_strings {envs : List Bytes} (h : ∀ env ∈ envs, env ≠ [] ∧ 0 ∉ env) :
    parseEnvironBlock textDelims none (FsEncoding.utf8.decode (terminate 0 envs)) =
      some (Dict.update ∅ (envs.filterMap portable)) := by
  have hstrings : ∀ s ∈ envs.map FsEncoding.utf8.decode, s ≠ [] ∧ textDelims.nul ∉ s := by
    intro s hs
    obtain ⟨env, henv, rfl⟩ := List.mem_map.1 hs
    obtain ⟨hne, hnul⟩ := h env henv
    exact ⟨mt FsEncoding.utf8.decode_eq_nil.1 hne, fun hc => hnul (FsEncoding.utf8.mem (b := 0) (by decide) hc)⟩
  have hassign := assignments_terminate textDelims none hstrings
  rw [List.filterMap_map] at hassign
  rw [parseEnvironBlock_assignments, FsEncoding.utf8.decode_terminate]
  exact congrArg (fun l => some (Dict.update ∅ l)) hassign

/-- **Both parsers agree, exactly when** every name is UTF-8 and not empty. -/
theorem procEnviron_agrees_iff {envs : List Bytes} (h : ∀ env ∈ envs, env ≠ [] ∧ 0 ∉ env) :
    (∃ d, procEnviron (.ok envs) = .ok d ∧
      parseEnvironBlock textDelims none (FsEncoding.utf8.decode (terminate 0 envs)) = some d) ↔
    ∀ env ∈ envs, ∀ name, name? env = some name → NameOk name := by
  rw [parseEnvironBlock_strings h]
  constructor
  · rintro ⟨d, hd, hportable⟩ env henv name hname
    obtain rfl := Option.some.inj hportable
    obtain ⟨key, hkey, hvalid⟩ := (mem_of_foldlM hd).1 env henv name hname
    refine ⟨?_, hvalid ▸ rfl⟩
    -- an empty name would be an empty key, which the portable parser has not
    rintro rfl
    obtain rfl : [] = key := Option.some.inj hvalid
    rcases Dict.mem_update.1 hkey with hkey | hkey
    · obtain ⟨p, hp, hnil⟩ := List.mem_map.1 hkey
      obtain ⟨env', -, hassign⟩ := List.mem_filterMap.1 hp
      exact key_ne_nil_of_assignment textDelims hassign hnil
    · exact Dict.not_mem_empty _ hkey
  · exact fun hnames => ⟨_, foldlM_ok hnames, rfl⟩

theorem procEnviron_agrees_example : ∃ d, procEnviron (.ok [ascii "A=1", ascii "x", ascii "A=2"]) = .ok d ∧
    parseEnvironBlock textDelims none (FsEncoding.utf8.decode (terminate 0 [ascii "A=1", ascii "x", ascii "A=2"])) = some d := by
  refine (procEnviron_agrees_iff (by decide)).2 ?_
  rw [List.forall_mem_cons, List.forall_mem_cons, List.forall_mem_singleton]
  refine ⟨?_, ?_, ?_⟩ <;> intro name hname
  · obtain rfl : ascii "A" = name := Option.some.inj hname
    exact ⟨by decide, by decide⟩
  · cases hname
  · obtain rfl : ascii "A" = name := Option.some.inj hname
    exact ⟨by decide, by decide⟩

/-- `=b`, and a name that is one byte above ASCII. -/
theorem procEnviron_disagrees :
    procEnviron (.ok [ascii "=b"]) = .ok (Dict.update ∅ [([], text "b")]) ∧
    parseEnvironBlock textDelims none (FsEncoding.utf8.decode (terminate 0 [ascii "=b"])) = some ∅ ∧
    (Dict.update ∅ [([], text "b")] : Dict Text Text) ≠ ∅ ∧
    procEnviron (.ok [255 :: ascii "=b"]) = .error .unicodeDecodeError ∧
    parseEnvironBlock textDelims none (FsEncoding.utf8.decode (terminate 0 [255 :: ascii "=b"])) =
      some (Dict.update ∅ [([0xDCFF], text "b")]) := by
  decide

end Psutil.Bsd
