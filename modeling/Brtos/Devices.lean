import Brtos.Commands
import Brtos.QueueStack

/-! device.c with the driver tables of the simulator. The names that callers pass are constant
strings. Drivers create their events in the kernel, and wait for ever where that fails. -/
namespace Brtos

abbrev maxInstalledDevices : ℕ := 5

inductive DeviceType
  | uart | spi | i2c | gpio | adc | dac | pwm | endType
  deriving DecidableEq

/-- OSOpenUART, OSOpenGPIO, OSOpenADC and OSOpenPWM. -/
inductive Driver
  | uart | gpio | adc | pwm
  deriving DecidableEq

/-- The four functions of a device_api_t. A table has NULL for those that it lacks. -/
inductive ApiFunction
  | write | read | set | get
  deriving DecidableEq

/-- UART_api, GPIO_api, ADC_api and PWM_api. -/
def Driver.api : Driver → ApiFunction → Bool
  | .adc,.write | .pwm,.write | .pwm,.read => false
  | _,_ => true

def DeviceType.name : DeviceType → List ℕ
  | .uart => ['U','A','R','T'].map Char.toNat
  | .spi => ['S','P','I'].map Char.toNat
  | .i2c => ['I','2','C'].map Char.toNat
  | .gpio => ['G','P','I','O'].map Char.toNat
  | .adc => ['A','D','C'].map Char.toNat
  | .dac => ['D','A','C'].map Char.toNat
  | .pwm => ['P','W','M'].map Char.toNat
  | .endType => []

/-- The order of Device_Types_t and of DRIVER_NAMES. -/
def devTypes : List DeviceType := [.uart,.spi,.i2c,.gpio,.adc,.dac,.pwm]

/-- DRIVER_LIST. The array has one entry more than the list, which is all zero. -/
def osInstalledDevices : List (DeviceType × Option Driver) :=
  [(.uart,some .uart),(.gpio,some .gpio),(.adc,some .adc),(.pwm,some .pwm),(.uart,none)]

structure OsDevice where
  name : Option (List ℕ)
  deviceType : DeviceType
  baseAddress : ℕ
  driverData : ℕ
  deriving DecidableEq

structure OsDeviceControl where
  device : Option (Fin maxInstalledDevices)
  deviceNumber : ℤ
  api : Option Driver
  deriving DecidableEq

/-- BRTOSDevices and BRTOSDevControl. -/
structure Devices where
  brtosDevices : Fin maxInstalledDevices → OsDevice
  brtosDevControl : Fin maxInstalledDevices → OsDeviceControl
  deriving DecidableEq

/-- What uart_config_t and adc_config_t have for the initialisation. -/
structure DriverConfig where
  queueSize : ℤ
  readMutex : Bool
  writeMutex : Bool

/-- The arguments of OSDevOpen: `option` is an address, zero for NULL, and `config` is what a driver
reads there. `past` is what the memory has at name[4] behind a shorter name. -/
structure OpenCall where
  name : Option (List ℕ)
  option : ℕ
  config : DriverConfig
  past : ℕ

/-- What a call comes to. One that hangs leaves the state to the other tasks; one that reads through
NULL leaves nothing. -/
inductive CallOutcome (σ α : Type)
  | returns (s : σ) (a : α)
  | hangs (s : σ)
  | crashes

/-- `reply == ALLOC_EVENT_OK` -/
def Reply.allocates : Reply → Bool
  | .ret code _ => code == allocEventOk
  | .sleep _ => false

/-- strncmp of at most `n` characters. -/
def strncmp (a b : List ℕ) (n : ℕ) : ℤ := strcmp (a.take n) (b.take n)

/-- strlen(s)-1, which is a size_t. -/
def strlenPred (s : List ℕ) : ℕ := if s = [] then 0xffffffff else s.length-1

def isDigit (c : ℕ) : Bool := 48 ≤ c && c ≤ 57

/-- The character that the search for a digit stops at. -/
def firstDigit (name : List ℕ) : ℕ := (name.find? isDigit).getD 0

/-- The bases of OSOpenGPIO. -/
def gpioBase (deviceNumber : ℤ) : Option ℕ :=
  if deviceNumber = 65 then some 110000
  else if deviceNumber = 66 then some 123471
  else if deviceNumber = 67 then some 65406
  else if deviceNumber = 68 then some 73416
  else if deviceNumber = 69 then some 82407
  else if deviceNumber = 70 then some 87307
  else if deviceNumber = 71 then some 97999
  else none

namespace Driver
variable {cfg : Config} (k : Kernel cfg) (r : OpenCall)

/-- Init_UART and Init_ADC, with the mutexes that the configuration asks for. The ASSERT of drivers.h is
a loop without an end. -/
def initEvents (mutexes : List Bool) : CallOutcome (Kernel cfg) Unit :=
  let sem := k.osSemCreate 0
  if ¬ sem.2.allocates then .hangs sem.1
  else if r.option = 0 then .crashes
  else
    let queue := sem.1.osQueueCreate (r.config.queueSize%65536).toNat
    if ¬ queue.2.allocates then .hangs queue.1
    else .returns (mutexes.foldl (fun k wanted => if wanted then (k.osMutexCreate 0).1 else k) queue.1) ()

def initUart : CallOutcome (Kernel cfg) Unit := initEvents k r [r.config.writeMutex,r.config.readMutex]

def initAdc : CallOutcome (Kernel cfg) Unit := initEvents k r [r.config.readMutex]

/-- OSOpenGPIO and OSOpenPWM create no events. -/
def init : Driver → CallOutcome (Kernel cfg) Unit
  | .uart => initUart k r
  | .adc => initAdc k r
  | .gpio | .pwm => .returns k ()

end Driver

namespace Devices
variable {cfg : Config} (s : Devices)

/-- Static variables are zero at first. -/
def start : Devices where
  brtosDevices _ := ⟨none,.uart,0,0⟩
  brtosDevControl _ := ⟨none,0,none⟩

def setDevice (i : Fin maxInstalledDevices) (d : OsDevice) : Devices :=
  { s with brtosDevices := Function.update s.brtosDevices i d }

def setControl (i : Fin maxInstalledDevices) (c : OsDeviceControl) : Devices :=
  { s with brtosDevControl := Function.update s.brtosDevControl i c }

/-- What a driver does to its device `i` behind the initialisation. -/
def bind (i : Fin maxInstalledDevices) (d : Driver) : Devices :=
  let control := s.brtosDevControl i
  let s := match d,gpioBase control.deviceNumber with
    | .gpio,some base => s.setDevice i { s.brtosDevices i with baseAddress := base }
    | _,_ => s
  s.setControl i { control with api := some d }

/-- The call of a driver for the device `i`. -/
def driverOpen (i : Fin maxInstalledDevices) (r : OpenCall) (d : Driver) (k : Kernel cfg) :
    CallOutcome (Kernel cfg × Devices) Unit :=
  match d.init k r with
  | .returns k _ => .returns (k,s.bind i d) ()
  | .hangs k => .hangs (k,s)
  | .crashes => .crashes

/-- The loop over OSInstalledDevices. -/
def driverLoop (i : Fin maxInstalledDevices) (r : OpenCall) (type : DeviceType) :
    List (DeviceType × Option Driver) → Kernel cfg → Devices → CallOutcome (Kernel cfg × Devices) Unit
  | [],k,s => .returns (k,s) ()
  | (t,some d) :: rest,k,s =>
    if t = type then
      match (s.setDevice i { s.brtosDevices i with deviceType := t }).driverOpen i r d k with
      | .returns (k,s) _ => driverLoop i r type rest k s
      | .hangs w => .hangs w
      | .crashes => .crashes
    else driverLoop i r type rest k s
  | (_,none) :: rest,k,s => driverLoop i r type rest k s

def searchType (name : List ℕ) : DeviceType :=
  (devTypes.find? fun t => strncmp name t.name (strlenPred name) = 0).getD .endType

/-- The device number, none where OSDevOpen gives up. -/
def deviceNumber (name : List ℕ) (past : ℕ) : Option ℤ :=
  let number := int8 (uint8 (firstDigit name-48))
  if number < 0 then
    if strncmp name DeviceType.gpio.name (strlenPred name) ≠ 0 then none
    else some (int8 ((name ++ [0]).getD 4 past))
  else some number

/-- OSDevOpen in the kernel `k`. -/
def osDevOpen (k : Kernel cfg) (r : OpenCall) :
    CallOutcome (Kernel cfg × Devices) (Option (Fin maxInstalledDevices)) :=
  match r.name with
  | none => .returns (k,s) none
  | some name =>
    match (List.finRange _).find? fun i => (s.brtosDevices i).name.any fun n => strcmp name n = 0 with
    | some index => .returns (k,s) (some index)
    | none =>
      match (List.finRange _).find? fun i => (s.brtosDevices i).name = none with
      | none => .returns (k,s) none
      | some index =>
        match deviceNumber name r.past with
        | none => .returns (k,s) none
        | some number =>
          let s := s.setDevice index
            { s.brtosDevices index with name := some name, driverData := r.option }
          let s := s.setControl index
            { s.brtosDevControl index with device := some index, deviceNumber := int8 (uint8 number) }
          match driverLoop index r (searchType name) osInstalledDevices k s with
          | .returns w _ => .returns w (some index)
          | .hangs w => .hangs w
          | .crashes => .crashes

/-- `dev->api->f(..)`: none for an api that is NULL, else whether there is a function. -/
def dispatch (f : ApiFunction) (i : Fin maxInstalledDevices) : Option Bool :=
  (s.brtosDevControl i).api.map fun d => d.api f

def osDevWrite (i : Fin maxInstalledDevices) : Option Bool := s.dispatch .write i
def osDevRead (i : Fin maxInstalledDevices) : Option Bool := s.dispatch .read i
def osDevSet (i : Fin maxInstalledDevices) : Option Bool := s.dispatch .set i
def osDevGet (i : Fin maxInstalledDevices) : Option Bool := s.dispatch .get i

/-! ### What a call does -/

/-- The call returns NULL: no name, no free block, or a name without a digit that does not begin like
GPIO. -/
def Refuses (r : OpenCall) : Prop := ∀ name ∈ r.name, (∀ i, (s.brtosDevices i).name ≠ some name) ∧
  ((∀ i, (s.brtosDevices i).name ≠ none) ∨ deviceNumber name r.past = none)

end Devices

/-- The driver in DRIVER_LIST. -/
def DeviceType.driver : DeviceType → Option Driver
  | .uart => some .uart
  | .gpio => some .gpio
  | .adc => some .adc
  | .pwm => some .pwm
  | _ => none

def Driver.type : Driver → DeviceType
  | .uart => .uart
  | .gpio => .gpio
  | .adc => .adc
  | .pwm => .pwm

namespace Driver
variable {cfg : Config}

/-- What a driver with events asks for: options, and a kernel that is in no interrupt or critical
section and has a semaphore, a queue and the memory of the queue left. -/
def HasEvents (k : Kernel cfg) (r : OpenCall) : Prop :=
  r.option ≠ 0 ∧ k.iNesting = 0 ∧ k.findEvent .sem cfg.brtosMaxSem ≠ none ∧
    k.findEvent .queue cfg.brtosMaxQueue ≠ none ∧
      ¬ k.NoRoom ((CreateCall.queue (r.config.queueSize%65536).toNat).words cfg)

def Ready (k : Kernel cfg) (r : OpenCall) : Driver → Prop
  | .uart | .adc => HasEvents k r
  | .gpio | .pwm => True

instance (k : Kernel cfg) (r : OpenCall) : Decidable (HasEvents k r) := by
  unfold HasEvents
  infer_instance

instance (k : Kernel cfg) (r : OpenCall) : (d : Driver) → Decidable (d.Ready k r)
  | .uart | .adc => inferInstanceAs (Decidable (HasEvents k r))
  | .gpio | .pwm => inferInstanceAs (Decidable True)

end Driver

namespace Kernel
variable {cfg : Config} (k : Kernel cfg)

@[simp] theorem allocates_ret (code : ℕ) (data : List ℕ) :
    (Reply.ret code data).allocates = true ↔ code = allocEventOk := by
  simp [Reply.allocates]

theorem osSemCreate_allocates (cnt : ℕ) : (k.osSemCreate cnt).2.allocates = true ↔
    k.iNesting = 0 ∧ k.findEvent .sem cfg.brtosMaxSem ≠ none := by
  by_cases nested : 0 < k.iNesting
  · simp [osSemCreate,nested,irqPendErr,allocEventOk,show k.iNesting ≠ 0 by omega]
  · simp only [osSemCreate,nested,if_false,enterTask_findEvent]
    cases k.findEvent .sem cfg.brtosMaxSem with
    | none => simp [noAvailableEvent,allocEventOk]
    | some i => simp [show k.iNesting = 0 by omega]

/-- A semaphore that is created leaves what the queues need as it is. -/
theorem osSemCreate_queues {cnt : ℕ} (created : (k.osSemCreate cnt).2.allocates = true) :
    let t := (k.osSemCreate cnt).1
    t.iNesting = 0 ∧ t.findEvent .queue cfg.brtosMaxQueue = k.findEvent .queue cfg.brtosMaxQueue ∧
      t.iQueueAddress = k.iQueueAddress := by
  obtain ⟨calm,free⟩ := (k.osSemCreate_allocates cnt).mp created
  obtain ⟨i,found⟩ := Option.ne_none_iff_exists'.mp free
  have made : (k.osSemCreate cnt).1 =
      ((k.enterTask.allocEvent (.sem i)).setSem i fun _ => ⟨cnt,false⟩).exitTask := by
    simp only [osSemCreate,calm,lt_irrefl,if_false,enterTask_findEvent,found]
  rw [made]
  refine ⟨?_,?_,?_⟩
  · unfold exitTask enterTask
    split_ifs <;>
      simp_all [setSem,allocEvent,setEvent,osEnterCritical,osExitCritical]
  · unfold findEvent
    simp [allocEvent,setEvent]
  · rw [cursor_of_queues (exitTask_queues _)]
    exact cursor_of_queues (k := k.enterTask) k.enterTask_queues

theorem osQueueCreate_allocates {size : ℕ} (small : size < 65536) :
    (k.osQueueCreate size).2.allocates = true ↔ k.iNesting = 0 ∧
      k.findEvent .queue cfg.brtosMaxQueue ≠ none ∧ ¬ k.NoRoom ((CreateCall.queue size).words cfg) := by
  let s : QueueStack cfg := ⟨k,fun _ => ⟨0,0,0,0,0,0⟩,[]⟩
  have reply : (k.osQueueCreate size).2 = (s.create (.queue size)).2 := by
    simp only [QueueStack.create,s]
    split <;> simp_all
  have admits : s.Admits (.queue size) ↔ k.iNesting = 0 ∧ k.findEvent .queue cfg.brtosMaxQueue ≠ none ∧
      ¬ k.NoRoom ((CreateCall.queue size).words cfg) := by
    simp [QueueStack.Admits,CreateCall.elem,s]
  have outcome := QueueStack.queue_outcome (s := s) small
  rw [reply,← admits]
  split_ifs at outcome with granted
  · obtain ⟨data,code⟩ := outcome.code
    simp [code,granted]
  · refine iff_of_false (fun allocated => ?_) granted
    cases given : (s.create (.queue size)).2 with
    | ret code data =>
      rw [given,allocates_ret] at allocated
      exact outcome.code given allocated
    | sleep p => simp [given,Reply.allocates] at allocated

end Kernel

namespace Driver
variable {cfg : Config} {k : Kernel cfg} {r : OpenCall}

theorem initEvents_returns (mutexes : List Bool) :
    (∃ t, initEvents k r mutexes = .returns t ()) ↔ HasEvents k r := by
  by_cases created : (k.osSemCreate 0).2.allocates = true
  · obtain ⟨calm,free⟩ := (k.osSemCreate_allocates 0).mp created
    obtain ⟨calm',blocks,address⟩ := k.osSemCreate_queues created
    have queued := (k.osSemCreate 0).1.osQueueCreate_allocates
      (show (r.config.queueSize%65536).toNat < 65536 by omega)
    rw [Kernel.NoRoom,address,← Kernel.NoRoom,blocks] at queued
    by_cases null : r.option = 0
    · simp [initEvents,HasEvents,created,null]
    · simp only [initEvents,HasEvents,created,null,not_true,if_false,queued]
      by_cases allocated : k.findEvent .queue cfg.brtosMaxQueue ≠ none ∧
          ¬ k.NoRoom ((CreateCall.queue (r.config.queueSize%65536).toNat).words cfg)
      · simp [calm,calm',free,null,allocated]
      · simp [calm',allocated]
  · have none_ := mt (k.osSemCreate_allocates 0).mpr created
    refine iff_of_false ?_ fun events => none_ ⟨events.2.1,events.2.2.1⟩
    simp [initEvents,created]

/-- The initialisation of a driver comes to its end exactly if what it asks for is there. -/
theorem init_returns (d : Driver) : (∃ t, d.init k r = .returns t ()) ↔ d.Ready k r := by
  cases d with
  | uart | adc => exact initEvents_returns _
  | gpio | pwm => exact iff_of_true ⟨k,rfl⟩ trivial

end Driver
namespace Devices
variable {cfg : Config} {k : Kernel cfg} {s t : Devices} {i j : Fin maxInstalledDevices} {name : List ℕ}
  {r : OpenCall}

/-- Only the block `i` has changed, and its name has not. -/
structure Within (s t : Devices) (i : Fin maxInstalledDevices) : Prop where
  device {j : Fin maxInstalledDevices} : j ≠ i → t.brtosDevices j = s.brtosDevices j
  control {j : Fin maxInstalledDevices} : j ≠ i → t.brtosDevControl j = s.brtosDevControl j
  name : (t.brtosDevices i).name = (s.brtosDevices i).name

theorem Within.refl (s : Devices) (i : Fin maxInstalledDevices) : Within s s i := ⟨fun _ => rfl,fun _ => rfl,rfl⟩

theorem Within.trans {u : Devices} (h : Within s t i) (h' : Within t u i) : Within s u i where
  device other := (h'.device other).trans (h.device other)
  control other := (h'.control other).trans (h.control other)
  name := h'.name.trans h.name

theorem within_setDevice {d : OsDevice} (name : d.name = (s.brtosDevices i).name) :
    Within s (s.setDevice i d) i where
  device other := Function.update_of_ne other _ _
  control _ := rfl
  name := by simpa [setDevice] using name

theorem within_setControl (c : OsDeviceControl) : Within s (s.setControl i c) i where
  device _ := rfl
  control other := Function.update_of_ne other _ _
  name := rfl

theorem within_bind (d : Driver) : Within s (s.bind i d) i := by
  unfold bind
  dsimp only
  split
  · refine Within.trans (within_setDevice ?_) (within_setControl _)
    rfl
  · exact within_setControl _

theorem bind_api (d : Driver) : ((s.bind i d).brtosDevControl i).api = some d := by
  unfold bind
  simp [setControl]

/-- The loop calls the driver of the type, if there is one. -/
theorem driverLoop_eq (type : DeviceType) : driverLoop i r type osInstalledDevices k s =
    match type.driver with
    | none => .returns (k,s) ()
    | some d => (s.setDevice i { s.brtosDevices i with deviceType := type }).driverOpen i r d k := by
  cases type <;> simp [driverLoop,osInstalledDevices,DeviceType.driver]
  all_goals split <;> simp [*]

/-- What the outcomes of OSDevOpen are. -/
inductive Opens (s : Devices) (k : Kernel cfg) (r : OpenCall) :
    CallOutcome (Kernel cfg × Devices) (Option (Fin maxInstalledDevices)) → Prop
  | refused (refuses : s.Refuses r) : Opens s k r (.returns (k,s) none)
  | found {name : List ℕ} {i : Fin maxInstalledDevices} (named : r.name = some name)
      (here : (s.brtosDevices i).name = some name) : Opens s k r (.returns (k,s) (some i))
  | opened {name : List ℕ} {i : Fin maxInstalledDevices} {t u : Devices} {l : Kernel cfg}
      (named : r.name = some name) (fresh : ∀ j, (s.brtosDevices j).name ≠ some name)
      (free : (s.brtosDevices i).name = none) (accepted : deviceNumber name r.past ≠ none)
      (stored : t = s.setDevice i { s.brtosDevices i with name := some name, driverData := r.option })
      (within : Within t u i)
      (api : (u.brtosDevControl i).api = (searchType name).driver.or (s.brtosDevControl i).api)
      (ready : ∀ d, (searchType name).driver = some d → d.Ready k r) :
      Opens s k r (.returns (l,u) (some i))
  | hung {name : List ℕ} {i : Fin maxInstalledDevices} {t u : Devices} {l : Kernel cfg} {d : Driver}
      (named : r.name = some name) (fresh : ∀ j, (s.brtosDevices j).name ≠ some name)
      (free : (s.brtosDevices i).name = none) (accepted : deviceNumber name r.past ≠ none)
      (stored : t = s.setDevice i { s.brtosDevices i with name := some name, driverData := r.option })
      (within : Within t u i) (driver : (searchType name).driver = some d) (unready : ¬ d.Ready k r) :
      Opens s k r (.hangs (l,u))
  | crashed {name : List ℕ} {i : Fin maxInstalledDevices} {d : Driver} (named : r.name = some name)
      (fresh : ∀ j, (s.brtosDevices j).name ≠ some name) (free : (s.brtosDevices i).name = none)
      (accepted : deviceNumber name r.past ≠ none) (driver : (searchType name).driver = some d)
      (unready : ¬ d.Ready k r) : Opens s k r .crashes

/-- The block is committed, and the driver of its type runs. -/
theorem opens_fresh {number : ℤ} (named : r.name = some name)
    (fresh : ∀ j, (s.brtosDevices j).name ≠ some name) (free : (s.brtosDevices i).name = none)
    (accepted : deviceNumber name r.past ≠ none) :
    let t := s.setDevice i { s.brtosDevices i with name := some name, driverData := r.option }
    let u := t.setControl i
      { t.brtosDevControl i with device := some i, deviceNumber := int8 (uint8 number) }
    s.Opens k r (match driverLoop i r (searchType name) osInstalledDevices k u with
      | .returns w _ => .returns w (some i)
      | .hangs w => .hangs w
      | .crashes => .crashes) := by
  intro t u
  have committed : Within t u i := within_setControl _
  rw [driverLoop_eq]
  cases driver : (searchType name).driver with
  | none =>
    refine .opened named fresh free accepted rfl committed ?_ fun d some_ => by simp [driver] at some_
    simp [u,t,driver,setControl,setDevice]
  | some d =>
    have typed : Within t (u.setDevice i { u.brtosDevices i with deviceType := searchType name }) i :=
      committed.trans (within_setDevice rfl)
    have ends := d.init_returns (k := k) (r := r)
    unfold driverOpen
    dsimp only
    cases started : d.init k r with
    | returns l done =>
      refine .opened named fresh free accepted rfl (typed.trans (within_bind d)) ?_ fun d' some_ => ?_
      · rw [bind_api,driver,Option.some_or]
      · obtain rfl := Option.some.inj (driver.symm.trans some_)
        exact ends.mp ⟨l,started⟩
    | hangs l =>
      exact .hung named fresh free accepted rfl typed driver fun ready => by
        simpa [started] using ends.mpr ready
    | crashes =>
      exact .crashed named fresh free accepted driver fun ready => by
        simpa [started] using ends.mpr ready

theorem opens (s : Devices) (k : Kernel cfg) (r : OpenCall) : s.Opens k r (s.osDevOpen k r) := by
  unfold osDevOpen
  cases named : r.name with
  | none => exact .refused fun name mem => by simp [named] at mem
  | some name =>
    dsimp only
    cases search : (List.finRange _).find? fun i => (s.brtosDevices i).name.any fun n => strcmp name n = 0 with
    | some index =>
      have same := List.find?_some search
      cases here : (s.brtosDevices index).name with
      | none => simp [here] at same
      | some n =>
        obtain rfl : name = n := strcmp_eq_zero.mp (by simpa [here] using same)
        exact .found named here
    | none =>
      have fresh : ∀ j, (s.brtosDevices j).name ≠ some name := fun j same => by
        have far := List.find?_eq_none.mp search j (List.mem_finRange j)
        simp [same,strcmp_self] at far
      cases search' : (List.finRange _).find? fun i => (s.brtosDevices i).name = none with
      | none =>
        refine .refused fun n mem => ?_
        obtain rfl := Option.some.inj (named.symm.trans mem)
        refine ⟨fresh,Or.inl fun j free => ?_⟩
        simpa [free] using List.find?_eq_none.mp search' j (List.mem_finRange j)
      | some index =>
        cases number : deviceNumber name r.past with
        | none =>
          refine .refused fun n mem => ?_
          obtain rfl := Option.some.inj (named.symm.trans mem)
          exact ⟨fresh,Or.inr number⟩
        | some n =>
          have free : (s.brtosDevices index).name = none := by simpa using List.find?_some search'
          exact opens_fresh named fresh free (by simp [number])

/-! ### Runs -/

/-- The driver of the type is found for the name of one of its units as it is. -/
theorem searchType_driver {d : Driver} (unit : name.dropLast = d.type.name) :
    (searchType name).driver = some d := by
  have some_ : name ≠ [] := fun e => by
    subst e
    cases d <;> simp [Driver.type,DeviceType.name] at unit
  have length : name.length-1 = d.type.name.length := by rw [← unit,List.length_dropLast]
  have prefix_ : name.take (name.length-1) = d.type.name := by rw [← unit,List.dropLast_eq_take]
  have compare : ∀ t : DeviceType, strncmp name t.name (strlenPred name) =
      strcmp d.type.name (t.name.take d.type.name.length) := fun t => by
    rw [strncmp,strlenPred,if_neg some_,prefix_,length]
  unfold searchType
  simp only [compare]
  cases d <;> decide

def Opened (s : Devices) (name : List ℕ) : Prop := ∃ i, (s.brtosDevices i).name = some name

variable (s k r) in
/-- A call that takes a block for a unit of an installed driver finds what the driver asks for. -/
def Ends : Prop := ∀ d : Driver, ∀ name ∈ r.name, name.dropLast = d.type.name →
  s.Refuses r ∨ s.Opened name ∨ d.Ready k r

/-- The open devices have different names. A free block has no api, and the block of the name has the
api of the driver whose unit it is. -/
structure Filed (s : Devices) (wanted : List ℕ) : Prop where
  distinct {i j : Fin maxInstalledDevices} {name : List ℕ} : (s.brtosDevices i).name = some name →
    (s.brtosDevices j).name = some name → i = j
  free {i : Fin maxInstalledDevices} : (s.brtosDevices i).name = none → (s.brtosDevControl i).api = none
  bound {i : Fin maxInstalledDevices} {d : Driver} : wanted.dropLast = d.type.name →
    (s.brtosDevices i).name = some wanted → (s.brtosDevControl i).api = some d

theorem filed_start (wanted : List ℕ) : start.Filed wanted where
  distinct h := by simp [start] at h
  free _ := rfl
  bound _ h := by simp [start] at h

theorem named_of_within {u : Devices} {option : ℕ}
    (within : Within (s.setDevice i { s.brtosDevices i with name := some name, driverData := option }) u i) :
    (u.brtosDevices i).name = some name := within.name.trans (by simp [setDevice])

theorem Filed.stored {wanted : List ℕ} (h : s.Filed wanted) {u : Devices} {option : ℕ}
    (fresh : ∀ j, (s.brtosDevices j).name ≠ some name)
    (within : Within (s.setDevice i { s.brtosDevices i with name := some name, driverData := option }) u i)
    (api : ∀ d : Driver, wanted = name → wanted.dropLast = d.type.name →
      (u.brtosDevControl i).api = some d) : u.Filed wanted := by
  have named := named_of_within within
  have device : ∀ {j}, j ≠ i → u.brtosDevices j = s.brtosDevices j := fun other =>
    (within.device other).trans (Function.update_of_ne other _ _)
  have control : ∀ {j}, j ≠ i → u.brtosDevControl j = s.brtosDevControl j := fun other =>
    within.control other
  refine ⟨fun {j k n} hj hk => ?_,fun {j} none_ => ?_,fun {j d} unit hj => ?_⟩
  · by_cases first : j = i <;> by_cases second : k = i
    · exact first.trans second.symm
    · subst first
      rw [device second] at hk
      exact absurd hk ((named.symm.trans hj) ▸ fresh k)
    · subst second
      rw [device first] at hj
      exact absurd hj ((named.symm.trans hk) ▸ fresh j)
    · rw [device first] at hj
      rw [device second] at hk
      exact h.distinct hj hk
  · have other : j ≠ i := fun e => by simp [e,named] at none_
    rw [device other] at none_
    rw [control other]
    exact h.free none_
  · by_cases here : j = i
    · subst here
      exact api d (Option.some.inj (hj.symm.trans named)) unit
    · rw [device here] at hj
      rw [control here]
      exact h.bound unit hj

/-- A call in a kernel that the rest of the program may have changed since the call before. The others
go on where a call hangs. -/
def step (s : Devices) (a : Kernel cfg × OpenCall) : Option Devices :=
  match s.osDevOpen a.1 a.2 with
  | .returns w _ => some w.2
  | .hangs w => some w.2
  | .crashes => none

theorem Filed.step {wanted : List ℕ} (h : s.Filed wanted) {a : Kernel cfg × OpenCall}
    (ends : a.2.name = some wanted → s.Ends a.1 a.2) (next : s.step a = some t) : t.Filed wanted := by
  have outcome := opens s a.1 a.2
  unfold Devices.step at next
  generalize s.osDevOpen a.1 a.2 = out at outcome next
  cases outcome with
  | refused | found =>
    obtain rfl := Option.some.inj next
    exact h
  | opened named fresh free accepted stored within api ready =>
    obtain rfl := Option.some.inj next
    subst stored
    refine h.stored fresh within fun d same unit => ?_
    rw [api,h.free free,Option.or_none,← same,searchType_driver unit]
  | hung named fresh free accepted stored within driver unready =>
    obtain rfl := Option.some.inj next
    subst stored
    refine h.stored fresh within fun d same unit => ?_
    subst same
    obtain rfl := Option.some.inj (driver.symm.trans (searchType_driver unit))
    rcases ends named _ _ named unit with refuses | ⟨j,here⟩ | ready
    · exact ((refuses _ named).2.elim (fun full => full _ free) accepted).elim
    · exact absurd here (fresh j)
    · exact absurd ready unready
  | crashed => contradiction

variable (s k r) in
/-- A call does what its caller may expect: it returns, the name of an open device gives its block and
changes nothing, NULL changes nothing, and the functions of the device go to the table of an installed
driver whose name is the one of the device without its last character. -/
structure Meets : Prop where
  returns : ∃ w a, s.osDevOpen k r = .returns w a
  again {i : Fin maxInstalledDevices} {name : List ℕ} : r.name = some name →
    (s.brtosDevices i).name = some name → s.osDevOpen k r = .returns (k,s) (some i)
  null {w : Kernel cfg × Devices} : s.osDevOpen k r = .returns w none → w.2 = s
  bound {w : Kernel cfg × Devices} {i : Fin maxInstalledDevices} : s.osDevOpen k r = .returns w (some i) →
    ∃ d : Driver, ∃ name ∈ r.name, name.dropLast = d.type.name ∧ ∀ f, w.2.dispatch f i = some (d.api f)

variable (s k r) in
/-- The call is refused, or its name is that of a unit of an installed driver and is open or finds what
the driver asks for. -/
def Provides : Prop := s.Refuses r ∨ ∃ d : Driver, ∃ name ∈ r.name, name.dropLast = d.type.name ∧
  (s.Opened name ∨ d.Ready k r)

theorem Meets.provides (h : s.Meets k r) : s.Provides k r := by
  by_cases refuses : s.Refuses r
  · exact Or.inl refuses
  · obtain ⟨w,a,returns⟩ := h.returns
    have bound := @h.bound
    have outcome := opens s k r
    rw [returns] at outcome bound
    cases outcome with
    | refused refuses' => exact absurd refuses' refuses
    | found named here =>
      obtain ⟨d,n,named',unit,-⟩ := bound rfl
      obtain rfl := Option.some.inj (named.symm.trans named')
      exact Or.inr ⟨d,_,named,unit,Or.inl ⟨_,here⟩⟩
    | opened named fresh free accepted stored within api ready =>
      obtain ⟨d,n,named',unit,-⟩ := bound rfl
      obtain rfl := Option.some.inj (named.symm.trans named')
      exact Or.inr ⟨d,_,named,unit,Or.inr (ready d (searchType_driver unit))⟩

theorem dispatch_of_api {d : Driver} (named : r.name = some name) (unit : name.dropLast = d.type.name)
    (api : (t.brtosDevControl i).api = some d) : ∃ d : Driver, ∃ name ∈ r.name,
      name.dropLast = d.type.name ∧ ∀ f, t.dispatch f i = some (d.api f) :=
  ⟨d,name,named,unit,fun f => by rw [dispatch,api]; rfl⟩

/-- An open device is found again. -/
theorem Filed.again (h : s.Filed name) {d : Driver} (named : r.name = some name)
    (here : (s.brtosDevices i).name = some name) (unit : name.dropLast = d.type.name)
    (result : s.osDevOpen k r = .returns (k,s) (some i)) : s.Meets k r where
  returns := ⟨_,_,result⟩
  again {j n} named' here' := by
    obtain rfl := Option.some.inj (named.symm.trans named')
    rw [result,h.distinct here here']
  null other := by simp [result] at other
  bound {w j} same := by
    obtain ⟨rfl,rfl⟩ : (k,s) = w ∧ i = j := by simpa [result] using same
    exact dispatch_of_api named unit (h.bound unit here)

theorem Filed.meets (h : ∀ name ∈ r.name, s.Filed name) (provides : s.Provides k r) : s.Meets k r := by
  have outcome := opens s k r
  generalize result : s.osDevOpen k r = out at outcome
  have taken : ∀ {name : List ℕ} {j : Fin maxInstalledDevices}, r.name = some name →
      (∀ j, (s.brtosDevices j).name ≠ some name) → (s.brtosDevices j).name = none →
        deviceNumber name r.past ≠ none → ∃ d : Driver, name.dropLast = d.type.name ∧ d.Ready k r :=
    fun {name j} named fresh free accepted => by
      rcases provides with refuses | ⟨d,n,named',unit,here | ready⟩
      · exact ((refuses name named).2.elim (fun full => full j free) accepted).elim
      · obtain rfl := Option.some.inj (named.symm.trans named')
        exact (fresh _ here.choose_spec).elim
      · obtain rfl := Option.some.inj (named.symm.trans named')
        exact ⟨d,unit,ready⟩
  cases outcome with
  | refused refuses =>
    refine ⟨⟨_,_,result⟩,fun {i name} named here => ?_,fun {w} same => ?_,fun {w i} same => ?_⟩
    · exact absurd here ((refuses name named).1 i)
    · obtain rfl : (k,s) = w := by simpa [result] using same
      rfl
    · simp [result] at same
  | @found name i named here =>
    rcases provides with refuses | ⟨d,n,named',unit,-⟩
    · exact absurd here ((refuses name named).1 i)
    · obtain rfl := Option.some.inj (named.symm.trans named')
      exact (h name named).again named here unit result
  | @opened name i _ u l named fresh free accepted stored within api ready =>
    obtain ⟨d,unit,-⟩ := taken named fresh free accepted
    refine ⟨⟨_,_,result⟩,fun {j n} named' here' => ?_,fun {w} same => by simp [result] at same,
      fun {w j} same => ?_⟩
    · obtain rfl := Option.some.inj (named.symm.trans named')
      exact absurd here' (fresh j)
    · obtain ⟨rfl,rfl⟩ : (l,u) = w ∧ i = j := by simpa [result] using same
      refine dispatch_of_api named unit ?_
      rw [api,(h name named).free free,Option.or_none,searchType_driver unit]
  | hung named fresh free accepted stored within driver unready
  | crashed named fresh free accepted driver unready =>
    obtain ⟨d,unit,ready⟩ := taken named fresh free accepted
    obtain rfl := Option.some.inj (driver.symm.trans (searchType_driver unit))
    exact absurd ready unready

/-- In every run whose calls with the same name end, a call of OSDevOpen does what its caller may expect
exactly if it is refused, or its name without the last character is UART, GPIO, ADC or PWM and it is open
or the driver finds what it asks for. -/
theorem opens_iff (r : OpenCall)
    (run : Run.Reach step (fun s (a : Kernel cfg × OpenCall) => a.2.name = r.name → s.Ends a.1 a.2) start s)
    (k : Kernel cfg) : s.Meets k r ↔ s.Provides k r := by
  refine ⟨Meets.provides,Filed.meets fun name named => ?_⟩
  refine run.invariant (P := fun s => s.Filed name) (filed_start name) fun t a u filed ends next => ?_
  exact Filed.step filed (fun same => ends (same.trans named.symm)) next

/-- UART0 after ADC0 and GPIOB, the devices of tasks.c. -/
theorem opens_example : let call (name : List Char) : OpenCall := ⟨some (name.map Char.toNat),1,⟨128,true,true⟩,0⟩
    ∃ s, Run.Reach step (fun s (a : Kernel .simulator × OpenCall) =>
        a.2.name = (call ['U','A','R','T','0']).name → s.Ends a.1 a.2) start s ∧
      (s.brtosDevices 1).name = some (['G','P','I','O','B'].map Char.toNat) ∧
      s.Meets (System.init .simulator).toKernel (call ['U','A','R','T','0']) := by
  intro call
  obtain ⟨s,run,second⟩ := Run.exists_reach_of_exec step
    (fun _ (a : Kernel .simulator × OpenCall) => a.2.name ≠ (call ['U','A','R','T','0']).name) start
    [((System.init .simulator).toKernel,call ['A','D','C','0']),
      ((System.init .simulator).toKernel,call ['G','P','I','O','B'])]
    (fun s => (s.brtosDevices 1).name = some (['G','P','I','O','B'].map Char.toNat)) (by decide +kernel)
  have run : Run.Reach step (fun s (a : Kernel .simulator × OpenCall) =>
      a.2.name = (call ['U','A','R','T','0']).name → s.Ends a.1 a.2) start s :=
    run.mono fun s a other same => absurd same other
  exact ⟨s,run,second,(opens_iff _ run _).mpr (Or.inr ⟨.uart,_,rfl,by decide,Or.inr (by decide +kernel)⟩)⟩

/-- There is no driver for SPI0, but OSDevOpen gives it a block. -/
theorem opens_fails : let r : OpenCall := ⟨some (['S','P','I','0'].map Char.toNat),0,⟨0,false,false⟩,0⟩
    let k : Kernel .simulator := (System.init .simulator).toKernel
    ∃ w, start.osDevOpen k r = .returns w (some 0) ∧ w.2.osDevRead 0 = none ∧ ¬ start.Meets k r := by
  intro r k
  have opened : ∃ w, start.osDevOpen k r = .returns w (some 0) ∧ w.2.osDevRead 0 = none :=
    ⟨_,rfl,by decide +kernel⟩
  obtain ⟨w,returns,unbound⟩ := opened
  refine ⟨w,returns,unbound,fun meets => ?_⟩
  obtain ⟨d,name,_,_,table⟩ := meets.bound returns
  have called := table .read
  rw [← osDevRead,unbound] at called
  contradiction

end Devices
end Brtos
