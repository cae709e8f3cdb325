import PacketRpc.Settings.Load
import PacketRpc.Yaml.Document

/-!
# Each setting comes from the topmost layer that has it

The environment lies above the file, and the file above the usual values. `Settings.Layered` says
for each setting where its value comes from; `merged_layered` that the merge is as it says, and
`merged_unaffected` that a variable counts for its own setting only. What is loaded is the merge of
all layers, or an error if no server can run with it (`load_of_layer`). Which library reads the file
makes no difference to this.
-/

namespace PacketRpc

/-! ## Settings that are numbers -/

/-- The settings that are numbers. -/
inductive NumberSetting
  | backlogPerWorker
  | readTimeoutMs
  | workers
  | queueCapacity
  | shrinkTimeoutMs
  deriving DecidableEq

namespace NumberSetting

/-- The variable of a setting. -/
def variableName : NumberSetting → String
  | backlogPerWorker => "BLUEPACKET_BACKLOG_PER_WORKER"
  | readTimeoutMs => "BLUEPACKET_READ_TIMEOUT_MS"
  | workers => "BLUEPACKET_WORKERS"
  | queueCapacity => "BLUEPACKET_QUEUE_CAPACITY"
  | shrinkTimeoutMs => "BLUEPACKET_SHRINK_TIMEOUT_MS"

/-- All values of a setting are below this number. -/
def bound : NumberSetting → Nat
  | backlogPerWorker => UInt32.size
  | readTimeoutMs | workers | queueCapacity | shrinkTimeoutMs => UInt64.size

/-- The usual value of a setting. -/
def usual : NumberSetting → Nat
  | backlogPerWorker => 50
  | readTimeoutMs => 30000
  | workers => 10
  | queueCapacity => 1000
  | shrinkTimeoutMs => 3000

/-- The value of a setting. -/
def value (s : Settings) : NumberSetting → Nat
  | backlogPerWorker => s.network.backlogPerWorker.toNat
  | readTimeoutMs => s.network.readTimeoutMs.toNat
  | workers => s.pool.workers.toNat
  | queueCapacity => s.pool.queueCapacity.toNat
  | shrinkTimeoutMs => s.pool.shrinkTimeoutMs.toNat

/-- The value that a layer has for a setting. -/
def value? (o : Overrides) : NumberSetting → Option Nat
  | backlogPerWorker => o.backlogPerWorker.map UInt32.toNat
  | readTimeoutMs => o.readTimeoutMs.map UInt64.toNat
  | workers => o.workers.map UInt64.toNat
  | queueCapacity => o.queueCapacity.map UInt64.toNat
  | shrinkTimeoutMs => o.shrinkTimeoutMs.map UInt64.toNat

theorem value_usual (k : NumberSetting) : k.value {} = k.usual := by cases k <;> rfl

theorem value_override (k : NumberSetting) (s : Settings) (o : Overrides) :
    k.value (s.override o) = (k.value? o).getD (k.value s) := by
  cases k <;> simp [value, value?, Settings.override, Option.getD_map]

end NumberSetting

theorem Environment.lt_of_unsigned? {env : Environment} {bound n : Nat} {name : String}
    (h : env.unsigned? bound name = some n) : n < bound := by
  obtain ⟨text, -, hn⟩ := Option.bind_eq_some_iff.1 h
  simpa using (Option.filter_eq_some_iff.1 hn).2

/-- A number below the bound of a width is that number again in words of that width. -/
theorem map_map_unsigned? {α : Type} {env : Environment} {bound : Nat} {name : String}
    {f : Nat → α} {g : α → Nat} (h : ∀ n < bound, g (f n) = n) :
    ((env.unsigned? bound name).map f).map g = env.unsigned? bound name := by
  rw [Option.map_map]
  rcases hn : env.unsigned? bound name with _ | n
  · rfl
  · exact congrArg some (h n (Environment.lt_of_unsigned? hn))

theorem NumberSetting.value?_ofEnvironment (k : NumberSetting) (env : Environment) :
    k.value? (.ofEnvironment env) = env.unsigned? k.bound k.variableName := by
  cases k with
  | backlogPerWorker => exact map_map_unsigned? fun _ h => UInt32.toNat_ofNat_of_lt h
  | readTimeoutMs | workers | queueCapacity | shrinkTimeoutMs =>
    exact map_map_unsigned? fun _ h => UInt64.toNat_ofNat_of_lt h

/-! ## Variables -/

/-- The variables that settings have. -/
inductive SettingVariable
  | address
  | port
  | number (setting : NumberSetting)
  deriving DecidableEq

namespace SettingVariable

def name : SettingVariable → String
  | address => "BLUEPACKET_BIND"
  | port => "BLUEPACKET_PORT"
  | number k => k.variableName

/-- True of a text that makes a value for the setting of the variable. -/
def reads : SettingVariable → String → Bool
  | address, text => (SocketAddress.ofText? text).isSome
  | port, text => (Digits.unsigned? UInt16.size text).isSome
  | number k, text => (Digits.unsigned? k.bound text).isSome

theorem name_inj {v u : SettingVariable} (h : v.name = u.name) : v = u := by
  revert h
  rcases v with _ | _ | _ | _ | _ | _ | _ <;> rcases u with _ | _ | _ | _ | _ | _ | _ <;> decide

theorem name_ne_fileVariable (v : SettingVariable) : v.name ≠ Settings.fileVariable := by
  rcases v with _ | _ | _ | _ | _ | _ | _ <;> decide

end SettingVariable

namespace Environment

variable {env env' : Environment}

/-- The environment without a variable. -/
def without (env : Environment) (name : String) : Environment := fun n =>
  if n = name then none else env n

/-- The address of the variable for it. -/
def address? (env : Environment) : Option SocketAddress :=
  (env "BLUEPACKET_BIND").bind SocketAddress.ofText?

/-- The port of the variable for it. -/
def port? (env : Environment) : Option UInt16 :=
  (env.unsigned? UInt16.size "BLUEPACKET_PORT").map UInt16.ofNat

theorem bind_eq_of_filter_eq {α β : Type} {x y : Option α} {f : α → Option β}
    (h : x.filter (fun a => (f a).isSome) = y.filter fun a => (f a).isSome) :
    x.bind f = y.bind f := by
  have hf (z : Option α) : (z.filter fun a => (f a).isSome).bind f = z.bind f := by
    rcases z with _ | a
    · rfl
    · rcases ha : f a with _ | b <;> simp [Option.filter, ha]
  rw [← hf x, h, hf]

/-- Only texts that make values count. -/
theorem overrides_congr (h : ∀ v : SettingVariable,
    (env v.name).filter v.reads = (env' v.name).filter v.reads) :
    Overrides.ofEnvironment env = Overrides.ofEnvironment env' := by
  have hn (k : NumberSetting) :
      env.unsigned? k.bound k.variableName = env'.unsigned? k.bound k.variableName :=
    bind_eq_of_filter_eq (h (.number k))
  have hp : env.unsigned? UInt16.size "BLUEPACKET_PORT" =
      env'.unsigned? UInt16.size "BLUEPACKET_PORT" := bind_eq_of_filter_eq (h .port)
  have ha : env.address? = env'.address? := bind_eq_of_filter_eq (h .address)
  have hb := hn .backlogPerWorker
  have hr := hn .readTimeoutMs
  have hw := hn .workers
  have hq := hn .queueCapacity
  have hs := hn .shrinkTimeoutMs
  unfold address? at ha
  simp only [NumberSetting.bound, NumberSetting.variableName] at hb hr hw hq hs
  simp only [Overrides.ofEnvironment, ha, hp, hb, hr, hw, hq, hs]

/-- A variable whose text makes no value for its setting might as well not be set. -/
theorem overrides_without {v : SettingVariable} {text : String} (h : env v.name = some text)
    (hr : v.reads text = false) :
    Overrides.ofEnvironment (env.without v.name) = Overrides.ofEnvironment env := by
  refine overrides_congr fun u => ?_
  unfold without
  split
  · next hu =>
    obtain rfl := SettingVariable.name_inj hu
    rw [h, Option.filter_some, if_neg (by simp [hr])]
    rfl
  · rfl

end Environment

/-! ## The port of an address -/

namespace SocketAddress

variable (a : SocketAddress) (port : UInt16)

theorem port_withPort : (a.withPort port).port = port := by cases a <;> rfl

/-- To put the port back is to have the address again. -/
theorem withPort_withPort : (a.withPort port).withPort a.port = a := by cases a <;> rfl

end SocketAddress

/-! ## The layers one above the other -/

namespace Settings

variable {lib : Yaml.Library} {env env' : Environment} {files : Files} {file : Overrides}

/-- Where the values of settings come from: the environment, else the file, else the usual ones. -/
structure Layered (env : Environment) (file : Overrides) (s : Settings) : Prop where
  number : ∀ k : NumberSetting, k.value s =
    (env.unsigned? k.bound k.variableName).getD ((k.value? file).getD k.usual)
  address : env.port? = none →
    s.network.bindAddress = env.address?.getD (file.bindAddress.getD .anyHost)
  /-- A port takes the place of the port of the address, and of nothing else of it. -/
  port : ∀ port, env.port? = some port → s.network.bindAddress.port = port ∧
    s.network.bindAddress.withPort (env.address?.getD (file.bindAddress.getD .anyHost)).port =
      env.address?.getD (file.bindAddress.getD .anyHost)

/-- The settings that all layers make. -/
def merged (env : Environment) (file : Overrides) : Settings :=
  (({} : Settings).override file).override (Overrides.ofEnvironment env)

theorem value_merged (k : NumberSetting) (env : Environment) (file : Overrides) :
    k.value (merged env file) =
      (env.unsigned? k.bound k.variableName).getD ((k.value? file).getD k.usual) := by
  rw [merged, k.value_override, k.value_override, k.value?_ofEnvironment, k.value_usual]

theorem bindAddress_merged (env : Environment) (hf : file.port = none) :
    (merged env file).network.bindAddress =
      let address := env.address?.getD (file.bindAddress.getD .anyHost)
      (env.port?.map address.withPort).getD address := by
  have hb : (({} : Settings).override file).network.bindAddress =
      file.bindAddress.getD .anyHost := by
    simp [override, hf]
  rw [merged, override]
  simp only [hb]
  rfl

theorem merged_layered (env : Environment) (hf : file.port = none) :
    Layered env file (merged env file) where
  number k := value_merged k env file
  address hp := by simp [bindAddress_merged env hf, hp]
  port port hp := by
    rw [bindAddress_merged env hf, hp]
    exact ⟨SocketAddress.port_withPort _ port, SocketAddress.withPort_withPort _ port⟩

/-- A variable counts for its own setting only, and the port only for the port of the address. -/
structure Unaffected (v : SettingVariable) (s t : Settings) : Prop where
  number : ∀ k, v ≠ .number k → k.value t = k.value s
  address : ∀ k, v = .number k → t.network.bindAddress = s.network.bindAddress
  host : v = .port → ∀ port,
    t.network.bindAddress.withPort port = s.network.bindAddress.withPort port

theorem merged_unaffected (hf : file.port = none) {v : SettingVariable}
    (h : ∀ n, n ≠ v.name → env' n = env n) :
    Unaffected v (merged env file) (merged env' file) := by
  have hother {u : SettingVariable} (hu : v ≠ u) : env' u.name = env u.name :=
    h _ fun hn => hu (SettingVariable.name_inj hn).symm
  have haddress (hv : v ≠ .address) : env'.address? = env.address? :=
    congrArg (·.bind SocketAddress.ofText?) (hother hv)
  refine ⟨fun k hk => ?_, fun k hk => ?_, fun hp port => ?_⟩
  · rw [value_merged, value_merged]
    have hn : env'.unsigned? k.bound k.variableName = env.unsigned? k.bound k.variableName :=
      congrArg (·.bind (Digits.unsigned? k.bound)) (hother hk)
    rw [hn]
  · subst hk
    have hport : env'.port? = env.port? :=
      congrArg (fun text => (text.bind (Digits.unsigned? UInt16.size)).map UInt16.ofNat)
        (hother (u := .port) nofun)
    rw [bindAddress_merged env' hf, bindAddress_merged env hf, haddress nofun, hport]
  · subst hp
    have hwith (a : SocketAddress) (p : Option UInt16) :
        ((p.map a.withPort).getD a).withPort port = a.withPort port := by
      cases p <;> cases a <;> rfl
    rw [bindAddress_merged env' hf, bindAddress_merged env hf, haddress nofun]
    simp only [hwith]

/-! ## Loading -/

/-- The layer of the file: nothing where no file is named, else what a library finds in its text. -/
inductive FileLayer (lib : Yaml.Library) (env : Environment) (files : Files) : Overrides → Prop
  | absent (h : env fileVariable = none) : FileLayer lib env files {}
  | document {path text : String} {file : Overrides} (h : env fileVariable = some path)
    (ht : files path = .ok text) (hd : Overrides.ofText? lib text = some file) :
    FileLayer lib env files file

/-- A document has no port apart from its address. -/
theorem port_ofValue? {v : lib.Value} (h : Overrides.ofValue? lib v = some file) :
    file.port = none := by
  simp only [Overrides.ofValue?, Option.bind_eq_bind, Option.bind_eq_some_iff, Option.pure_def,
    Option.some.injEq] at h
  obtain ⟨_, _, _, _, _, _, _, _, _, _, _, _, _, _, _, _, _, _, rfl⟩ := h
  rfl

theorem FileLayer.port_eq_none (h : FileLayer lib env files file) : file.port = none := by
  cases h with
  | absent => rfl
  | document _ _ hd =>
    obtain ⟨v, -, ho⟩ := Option.bind_eq_some_iff.1 hd
    exact port_ofValue? ho

/-- Only the variable that names the file decides which one it is. -/
theorem FileLayer.congr (h : FileLayer lib env files file)
    (he : env' fileVariable = env fileVariable) : FileLayer lib env' files file := by
  cases h with
  | absent hn => exact .absent (he.trans hn)
  | document hp ht hd => exact .document (he.trans hp) ht hd

theorem load_of_layer (h : FileLayer lib env files file) :
    load lib env files = (do (merged env file).validate; return merged env file) := by
  cases h with
  | absent hn =>
    rw [load, hn]
    rfl
  | @document path _ _ hp ht hd =>
    have hs : ofFile lib files path = .ok (({} : Settings).override file) := by
      rw [ofFile, ht]
      simp only [ofText?, hd, Option.map_some]
    rw [load, hp]
    simp only [hs]
    rfl

theorem validate_eq_ok {s : Settings} (hw : s.pool.workers ≠ 0) (hq : s.pool.queueCapacity ≠ 0) :
    s.validate = .ok () := by
  rw [validate, if_neg hw, if_neg hq]

theorem validate_eq_error {s : Settings} (h : s.pool.workers = 0 ∨ s.pool.queueCapacity = 0) :
    ∃ reason, s.validate = .error (.invalid reason) := by
  unfold validate
  split
  · exact ⟨_, rfl⟩
  · next hw => exact ⟨_, if_pos (h.resolve_left hw)⟩

/-- What comes of loading in layers. -/
structure InLayers (lib : Yaml.Library) (env : Environment) (files : Files) (file : Overrides) :
    Prop where
  layered : Layered env file (merged env file)
  load_eq : (merged env file).pool.workers ≠ 0 → (merged env file).pool.queueCapacity ≠ 0 →
    load lib env files = .ok (merged env file)
  /-- Only what all layers make together is checked. -/
  load_invalid : (∃ reason, load lib env files = .error (.invalid reason)) ↔
    (merged env file).pool.workers = 0 ∨ (merged env file).pool.queueCapacity = 0
  /-- The environment alone is merged in the same way, and not checked. -/
  environment : ofEnvironment env = merged env {} ∧ Layered env {} (ofEnvironment env)
  /-- A text that makes no value is as good as none. -/
  without : ∀ (v : SettingVariable) (text : String), env v.name = some text →
    v.reads text = false → load lib (env.without v.name) files = load lib env files ∧
      ofEnvironment (env.without v.name) = ofEnvironment env
  /-- A variable that is set to something else, or no longer, affects its own setting only. -/
  unaffected : ∀ (v : SettingVariable) (env' : Environment), (∀ n, n ≠ v.name → env' n = env n) →
    FileLayer lib env' files file ∧ Unaffected v (merged env file) (merged env' file) ∧
      Unaffected v (ofEnvironment env) (ofEnvironment env')

/-- **Settings are loaded in layers**, and checked when they are all in place. -/
theorem load_in_layers (h : FileLayer lib env files file) : InLayers lib env files file where
  layered := merged_layered env h.port_eq_none
  load_eq hw hq := by
    rw [load_of_layer h, validate_eq_ok hw hq]
    rfl
  load_invalid := by
    rw [load_of_layer h]
    constructor
    · rintro ⟨reason, hr⟩
      apply Classical.byContradiction
      intro hn
      obtain ⟨hw, hq⟩ := not_or.1 hn
      rw [validate_eq_ok hw hq] at hr
      cases hr
    · intro hz
      obtain ⟨reason, hr⟩ := validate_eq_error hz
      exact ⟨reason, by rw [hr]; rfl⟩
  environment := ⟨rfl, merged_layered env rfl⟩
  without v text ht hr := by
    have he := Environment.overrides_without ht hr
    have hfile : env.without v.name fileVariable = env fileVariable :=
      if_neg v.name_ne_fileVariable.symm
    refine ⟨?_, by rw [ofEnvironment, he, ofEnvironment]⟩
    rw [load_of_layer (h.congr hfile), load_of_layer h, merged, he, merged]
  unaffected v env' hv :=
    ⟨h.congr (hv _ v.name_ne_fileVariable.symm), merged_unaffected h.port_eq_none hv,
      merged_unaffected (show ({} : Overrides).port = none from rfl) hv⟩

/-- The file has no workers; the environment has some, and a port, and a capacity that is none. -/
theorem load_in_layers_mixed :
    let env : Environment := fun name =>
      [("BLUEPACKET_CONFIG", "server.yaml"), ("BLUEPACKET_WORKERS", "4"),
        ("BLUEPACKET_PORT", "7100"), ("BLUEPACKET_QUEUE_CAPACITY", "many")].lookup name
    let files : Files := fun _ =>
      .ok "network:\n  bind_addr: 127.0.0.1:6000\npool:\n  workers: 0\n"
    FileLayer Yaml.Document.library env files
      { bindAddress := some (.v4 ⟨127, 0, 0, 1⟩ 6000), workers := some 0 } ∧
    load Yaml.Document.library env files = .ok
      { network := { bindAddress := .v4 ⟨127, 0, 0, 1⟩ 7100 }, pool := { workers := 4 } } := by
  intro env files
  have hf : FileLayer Yaml.Document.library env files
      { bindAddress := some (.v4 ⟨127, 0, 0, 1⟩ 6000), workers := some 0 } :=
    .document rfl rfl (by decide +kernel)
  have hl := (load_in_layers hf).load_eq (by decide +kernel) (by decide +kernel)
  exact ⟨hf, hl.trans (congrArg Except.ok (by decide +kernel))⟩

end Settings
end PacketRpc
