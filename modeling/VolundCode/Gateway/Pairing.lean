import VolundCode.Lib.Run
import Mathlib.Tactic

/-!
# Pairing

A pairing code is redeemed for a token of a device, the list of devices is kept in memory and in a
file, and a token is valid while its device is in the list. The list is read from the file by the
first call; calls that begin while it is read see an empty list, and what they change is lost. The
list is saved by calls that may overlap.

Codes are redeemed at most once and before they expire in every run. If no call looks at the list
while it is read and no two writes of the file overlap, a token is valid until its device is
revoked, and never after that (`honours_of_settled`). Otherwise it may not be valid
(`not_honours`).
-/

namespace Pairing

open Run List

/-! ### The store -/

inductive Kind where
  | device
  | machine
  deriving DecidableEq, Repr

/-- A pairing code, with a number of its own: codes are drawn at random and may be drawn again. -/
structure PairingCodeRecord where
  serial : ℕ
  code : String
  client : String
  kind : Kind
  createdAt : ℤ
  expiresAt : ℤ
  deriving DecidableEq, Repr

structure PairedDeviceRecord where
  id : ℕ
  client : String
  lastSeen : ℤ
  deriving DecidableEq, Repr

/-- The claims of a token whose signature is valid. -/
structure DeviceToken where
  iss : String
  typ : String
  sub : ℕ
  client : String
  exp : ℤ
  deriving DecidableEq, Repr

/-- The device that a token is for. -/
def DeviceToken.device (token : DeviceToken) : String × ℕ :=
  (token.client, token.sub)

structure PairingStoreOptions where
  issuer : String
  codeTtlMs : ℤ
  deviceTokenTtlSeconds : ℤ

/-- The call that waits for the list to be saved: `redeem` with the token that it will return,
`revokeDevice`, or none if the list is saved because a device was seen. -/
inductive Waiter where
  | redeem (token : DeviceToken)
  | revoke (device : String × ℕ)
  | touch
  deriving DecidableEq, Repr

/-- A call of `persist`: it makes the directory first, and then writes what the list is by then. -/
structure Save where
  waiter : Waiter
  snapshot : Option (List PairedDeviceRecord)
  deriving DecidableEq, Repr

/-- The store and its file, with the codes that were redeemed and when, the tokens that were
returned, the devices that were taken off the list, and those for which `revokeDevice` has returned.
The identifiers of devices are never drawn again. -/
structure PairingStore where
  codes : List PairingCodeRecord
  devices : List PairedDeviceRecord
  loaded : Bool
  loading : Bool
  file : Option (List PairedDeviceRecord)
  saves : List Save
  serial : ℕ
  fresh : ℕ
  redeemed : List (PairingCodeRecord × ℤ)
  issued : List DeviceToken
  revoking : List (String × ℕ)
  revoked : List (String × ℕ)
  deriving DecidableEq, Repr

/-- The clients and identifiers of devices. -/
def keys (devices : List PairedDeviceRecord) : List (String × ℕ) :=
  devices.map fun d => (d.client, d.id)

/-- A store that was just made over a file, if there is one that can be read. -/
def PairingStore.initial (file : Option (List PairedDeviceRecord)) : PairingStore where
  codes := []
  devices := []
  loaded := false
  loading := false
  file := file
  saves := []
  serial := 0
  fresh := (keys (file.getD [])).foldr (fun k n => max (k.2 + 1) n) 0
  redeemed := []
  issued := []
  revoking := []
  revoked := []

/-- `sweepCodes`. -/
def PairingStore.sweepCodes (w : PairingStore) (now : ℤ) : PairingStore :=
  { w with codes := w.codes.filter fun c => now < c.expiresAt }

/-- `persist`. -/
def PairingStore.persist (w : PairingStore) (waiter : Waiter) : PairingStore :=
  { w with saves := w.saves ++ [⟨waiter, none⟩] }

/-- `TOUCH_THROTTLE_MS`. -/
def touchThrottleMs : ℤ :=
  60000

/-- The device that a token is for was seen. -/
def touch (id : ℕ) (now : ℤ) : List PairedDeviceRecord → List PairedDeviceRecord
  | [] => []
  | d :: ds => if d.id = id then { d with lastSeen := now } :: ds else d :: touch id now ds

section Operations

variable (o : PairingStoreOptions)

/-- `createCode`. A code that was drawn before is replaced. -/
def PairingStore.createCode (w : PairingStore) (code client : String) (kind : Kind) (now : ℤ) :
    PairingStore :=
  let w := w.sweepCodes now
  { w with
    codes := w.codes.filter (fun c => c.code ≠ code) ++
      [⟨w.serial, code, client, kind, now, now + o.codeTtlMs⟩]
    serial := w.serial + 1 }

/-- The token for a device. -/
def deviceToken (id : ℕ) (client : String) (now : ℤ) : DeviceToken where
  iss := o.issuer
  typ := "device"
  sub := id
  client := client
  exp := (now + o.deviceTokenTtlSeconds * 1000) / 1000

/-- `redeem`. -/
def PairingStore.redeem (w : PairingStore) (code : String) (now : ℤ) : PairingStore :=
  let w := w.sweepCodes now
  match (w.codes.filter fun c => now < c.expiresAt && c.code = code).getLast? with
  | none => w
  | some matched =>
    let w := { w with
      codes := w.codes.filter fun c => c.code ≠ matched.code
      redeemed := w.redeemed ++ [(matched, now)] }
    match matched.kind with
    | .machine => w
    | .device =>
      let token := deviceToken o w.fresh matched.client now
      let w : PairingStore := { w with
        devices := w.devices ++ [⟨w.fresh, matched.client, now⟩]
        fresh := w.fresh + 1 }
      w.persist (.redeem token)

/-- `revokeDevice`. -/
def PairingStore.revokeDevice (w : PairingStore) (client : String) (id : ℕ) : PairingStore :=
  let devices := w.devices.filter fun d => !(d.client = client && d.id = id)
  if devices.length = w.devices.length then { w with devices := devices }
  else
    { w with devices := devices, revoking := w.revoking ++ [(client, id)] }.persist
      (.revoke (client, id))

/-- The device that `verifyDeviceToken` finds for a token. -/
def PairingStore.deviceOf (w : PairingStore) (token : DeviceToken) (now : ℤ) :
    Option PairedDeviceRecord :=
  if token.typ ≠ "device" || token.iss ≠ o.issuer || token.exp * 1000 ≤ now then none
  else (w.devices.find? fun d => d.id = token.sub).filter fun d => d.client = token.client

/-- `verifyDeviceToken`. -/
def PairingStore.verifyDeviceToken (w : PairingStore) (token : DeviceToken) (now : ℤ) :
    PairingStore :=
  match w.deviceOf o token now with
  | none => w
  | some device =>
    if touchThrottleMs ≤ now - device.lastSeen then
      { w with devices := touch token.sub now w.devices }.persist .touch
    else w

end Operations

/-- The list has been read. What is in memory is replaced, if there is a file. -/
def PairingStore.load (w : PairingStore) : PairingStore :=
  { w with loading := false, devices := w.file.getD w.devices }

/-- The directory has been made, and the file is written with what the list is now. -/
def PairingStore.capture (w : PairingStore) (k : ℕ) : PairingStore :=
  { w with saves := w.saves.modify k fun s =>
      if s.snapshot.isNone then { s with snapshot := some w.devices } else s }

/-- The call that has waited for the list to be saved returns. -/
def PairingStore.settle (w : PairingStore) : Waiter → PairingStore
  | .redeem token => { w with issued := w.issued ++ [token] }
  | .revoke device => { w with revoked := w.revoked ++ [device] }
  | .touch => w

/-- The file has been written. -/
def PairingStore.written (w : PairingStore) (k : ℕ) : PairingStore :=
  match w.saves[k]? with
  | some ⟨waiter, some devices⟩ =>
    { w with file := some devices, saves := w.saves.eraseIdx k }.settle waiter
  | _ => w

/-- The process ends and starts again: what is in memory is lost. -/
def PairingStore.restart (w : PairingStore) : PairingStore :=
  { w with
    codes := []
    devices := []
    loaded := false
    loading := false
    saves := [] }

/-- What happens: the first call begins to read the file and has read it; the calls go on behind
`ensureLoaded`; the directory is made for a save, or cannot be, and the file is written; the process
is started again. -/
inductive Action where
  | ensureLoaded
  | load
  | createCode (code client : String) (kind : Kind) (now : ℤ)
  | redeem (code : String) (now : ℤ)
  | listDevices
  | revokeDevice (client : String) (id : ℕ)
  | verifyDeviceToken (token : DeviceToken) (now : ℤ)
  | capture (k : ℕ)
  | failed (k : ℕ)
  | written (k : ℕ)
  | restart
  deriving DecidableEq, Repr

/-- A step. No call goes on before `ensureLoaded` has been called. -/
def PairingStore.step (o : PairingStoreOptions) (w : PairingStore) : Action → PairingStore
  | .ensureLoaded => if w.loaded then w else { w with loaded := true, loading := true }
  | .load => if w.loading then w.load else w
  | .createCode code client kind now =>
    if w.loaded then w.createCode o code client kind now else w
  | .redeem code now => if w.loaded then w.redeem o code now else w
  | .listDevices => w
  | .revokeDevice client id => if w.loaded then w.revokeDevice client id else w
  | .verifyDeviceToken token now => if w.loaded then w.verifyDeviceToken o token now else w
  | .capture k => w.capture k
  | .failed k =>
    match w.saves[k]? with
    | some ⟨_, none⟩ => { w with saves := w.saves.eraseIdx k }
    | _ => w
  | .written k => w.written k
  | .restart => w.restart

/-- The store after a run. -/
def PairingStore.run (o : PairingStoreOptions) (file : Option (List PairedDeviceRecord))
    (as : List Action) : PairingStore :=
  as.foldl (PairingStore.step o) (.initial file)

/-! ### What is claimed -/

/-- Codes are redeemed at most once and before they expire. -/
structure RedeemsOnce (w : PairingStore) : Prop where
  once : (w.redeemed.map (·.1.serial)).Nodup
  before : ∀ r ∈ w.redeemed, r.2 < r.1.expiresAt

/-- When a token is verified, it is valid if it was returned and has not expired and its device was
not revoked, and it is not valid once the revocation of its device has returned. -/
def Honours (o : PairingStoreOptions) (w : PairingStore) : Action → Prop
  | .verifyDeviceToken token now =>
    w.loaded → (token ∈ w.issued → token.device ∉ w.revoking → now < token.exp * 1000 →
        (w.deviceOf o token now).isSome) ∧
      (token.device ∈ w.revoked → w.deviceOf o token now = none)
  | _ => True

/-- No save is being written. -/
def Unwritten (w : PairingStore) : Prop :=
  ∀ s ∈ w.saves, s.snapshot = none

/-- No call looks at the list while it is read. The file is not written while it is being written,
and the process does not end in the middle of that. -/
def Settled (w : PairingStore) : Action → Prop
  | .redeem _ _ => w.loading = false
  | .revokeDevice _ _ => w.loading = false
  | .verifyDeviceToken _ _ => w.loading = false
  | .capture _ => Unwritten w
  | .restart => Unwritten w
  | _ => True

/-! ### Codes -/

/-- The codes that can be redeemed have numbers of their own, and those that were redeemed are not
among them. -/
structure Codes (w : PairingStore) : Prop where
  redeems : RedeemsOnce w
  nodup : (w.codes.map (·.serial)).Nodup
  codes_lt : ∀ c ∈ w.codes, c.serial < w.serial
  redeemed_lt : ∀ r ∈ w.redeemed, r.1.serial < w.serial
  unused : ∀ c ∈ w.codes, ∀ r ∈ w.redeemed, c.serial ≠ r.1.serial

variable {w w' : PairingStore}

/-- Codes may be given up. -/
theorem codes_of_sublist (h : Codes w) (hcodes : w'.codes.Sublist w.codes)
    (hser : w'.serial = w.serial) (hred : w'.redeemed = w.redeemed) :
  Codes w'
  := by
  constructor
  · constructor
    · rw [hred]
      exact h.redeems.once
    · rw [hred]
      exact h.redeems.before
  · exact h.nodup.sublist (hcodes.map _)
  · intro c hc
    rw [hser]
    exact h.codes_lt c (hcodes.subset hc)
  · rw [hser, hred]
    exact h.redeemed_lt
  · intro c hc
    rw [hred]
    exact h.unused c (hcodes.subset hc)

variable {o : PairingStoreOptions}

theorem codes_createCode (h : Codes w) (code client : String) (kind : Kind) (now : ℤ) :
  Codes (w.createCode o code client kind now)
  := by
  have hsublist : ((w.sweepCodes now).codes.filter fun c => c.code ≠ code).Sublist w.codes :=
    filter_sublist.trans filter_sublist
  constructor
  · exact ⟨h.redeems.once, h.redeems.before⟩
  · rw [PairingStore.createCode, map_append, nodup_append]
    use h.nodup.sublist (hsublist.map _), nodup_singleton _
    intro m hm n hn
    obtain ⟨c, hc, rfl⟩ := mem_map.mp hm
    obtain rfl : n = w.serial := mem_singleton.mp hn
    exact (h.codes_lt c (hsublist.subset hc)).ne
  · intro c hc
    obtain hc | hc := mem_append.mp hc
    · exact (h.codes_lt c (hsublist.subset hc)).trans (Nat.lt_succ_self _)
    · obtain rfl := mem_singleton.mp hc
      exact Nat.lt_succ_self w.serial
  · intro r hr
    exact (h.redeemed_lt r hr).trans (Nat.lt_succ_self _)
  intro c hc r hr
  obtain hc | hc := mem_append.mp hc
  · exact h.unused c (hsublist.subset hc) r hr
  · obtain rfl := mem_singleton.mp hc
    exact (h.redeemed_lt r hr).ne'

/-- A code that is redeemed was not redeemed before, and cannot be redeemed again. -/
theorem codes_matched (h : Codes w) {matched : PairingCodeRecord} {now : ℤ}
    (hmatched : matched ∈ w.codes) (hnow : now < matched.expiresAt) :
  Codes { w with
    codes := w.codes.filter fun c => c.code ≠ matched.code
    redeemed := w.redeemed ++ [(matched, now)] }
  := by
  constructor
  · constructor
    · rw [map_append, nodup_append]
      use h.redeems.once, nodup_singleton _
      intro m hm n hn
      obtain ⟨r, hr, rfl⟩ := mem_map.mp hm
      obtain rfl : n = matched.serial := mem_singleton.mp hn
      exact (h.unused matched hmatched r hr).symm
    intro r hr
    obtain hr | hr := mem_append.mp hr
    · exact h.redeems.before r hr
    · obtain rfl := mem_singleton.mp hr
      exact hnow
  · exact h.nodup.sublist (filter_sublist.map _)
  · intro c hc
    exact h.codes_lt c (mem_of_mem_filter hc)
  · intro r hr
    obtain hr | hr := mem_append.mp hr
    · exact h.redeemed_lt r hr
    · obtain rfl := mem_singleton.mp hr
      exact h.codes_lt matched hmatched
  intro c hc r hr
  obtain ⟨hc, hne⟩ := mem_filter.mp hc
  obtain hr | hr := mem_append.mp hr
  · exact h.unused c hc r hr
  obtain rfl := mem_singleton.mp hr
  intro hser
  obtain rfl := inj_on_of_nodup_map h.nodup hc hmatched hser
  simp at hne

theorem codes_redeem (h : Codes w) (code : String) (now : ℤ) :
  Codes (w.redeem o code now)
  := by
  have hsweep : Codes (w.sweepCodes now) := codes_of_sublist h filter_sublist rfl rfl
  rw [PairingStore.redeem]
  simp only
  cases hm : ((w.sweepCodes now).codes.filter
      fun c => now < c.expiresAt && c.code = code).getLast? with
  | none => exact hsweep
  | some matched =>
  obtain ⟨hmem, hmatched⟩ := mem_filter.mp (mem_of_getLast? hm)
  rw [Bool.and_eq_true, decide_eq_true_eq] at hmatched
  have hcodes := codes_matched hsweep hmem hmatched.1
  simp only
  cases matched.kind with
  | machine => exact hcodes
  | device => exact codes_of_sublist hcodes (Sublist.refl _) rfl rfl

theorem codes_step (h : Codes w) (a : Action) :
  Codes (w.step o a)
  := by
  have hsame {w' : PairingStore} (hcodes : w'.codes = w.codes) (hser : w'.serial = w.serial)
      (hred : w'.redeemed = w.redeemed) : Codes w' :=
    codes_of_sublist h (hcodes ▸ Sublist.refl _) hser hred
  cases a with
  | ensureLoaded =>
    rw [PairingStore.step]
    split_ifs
    · exact h
    · exact hsame rfl rfl rfl
  | load =>
    rw [PairingStore.step]
    split_ifs
    · exact hsame rfl rfl rfl
    · exact h
  | createCode code client kind now =>
    rw [PairingStore.step]
    split_ifs
    · exact codes_createCode h code client kind now
    · exact h
  | redeem code now =>
    rw [PairingStore.step]
    split_ifs
    · exact codes_redeem h code now
    · exact h
  | listDevices => exact h
  | revokeDevice client id =>
    simp only [PairingStore.step, PairingStore.revokeDevice]
    split_ifs
    · exact hsame rfl rfl rfl
    · exact hsame rfl rfl rfl
    · exact h
  | verifyDeviceToken token now =>
    simp only [PairingStore.step, PairingStore.verifyDeviceToken]
    split_ifs
    · cases w.deviceOf o token now with
      | none => exact h
      | some device =>
        simp only
        split_ifs
        · exact hsame rfl rfl rfl
        · exact h
    · exact h
  | capture k => exact hsame rfl rfl rfl
  | failed k =>
    rw [PairingStore.step]
    split
    · exact hsame rfl rfl rfl
    · exact h
  | written k =>
    rw [PairingStore.step, PairingStore.written]
    split
    · rename_i waiter devices hk
      cases waiter with
      | redeem token | revoke id | touch => exact hsame rfl rfl rfl
    · exact h
  | restart => exact codes_of_sublist h (nil_sublist _) rfl rfl

theorem redeemsOnce_run (o : PairingStoreOptions) (file : Option (List PairedDeviceRecord))
    (as : List Action) :
  RedeemsOnce (PairingStore.run o file as)
  := by
  have hrun : Codes (PairingStore.run o file as) := by
    apply run_invariant (I := Codes) _ _ (run_some (PairingStore.step o) (.initial file) as)
    · intro w a w' h hw
      cases hw
      exact codes_step h a
    constructor
    · exact ⟨nodup_nil, by simp [PairingStore.initial]⟩
    · exact nodup_nil
    all_goals simp [PairingStore.initial]
  exact hrun.redeems

/-! ### Lists of devices -/

/-- The list has the device of a token. -/
def Has (devices : List PairedDeviceRecord) (token : DeviceToken) : Prop :=
  (devices.find? fun d => d.id = token.sub).map (·.client) = some token.client

variable {token : DeviceToken} {devices : List PairedDeviceRecord}

theorem has_append
    (h : Has devices token) (d : PairedDeviceRecord) :
  Has (devices ++ [d]) token
  := by
  obtain ⟨e, he, hcli⟩ := Option.map_eq_some_iff.mp h
  rw [Has, List.find?_append, he, Option.some_or, Option.map_some, hcli]

/-- Taking another device off the list leaves the one of the token there. -/
theorem has_filter
    (h : Has devices token) {client : String} {id : ℕ} (hne : token.device ≠ (client, id)) :
  Has (devices.filter fun d => !(d.client = client && d.id = id)) token
  := by
  induction devices with
  | nil => exact h
  | cons d ds ih =>
  rw [Has, List.find?_cons] at h
  by_cases hd : d.id = token.sub
  · simp only [hd, decide_true, Option.map_some, Option.some.injEq] at h
    have hkept : (!(d.client = client && d.id = id)) = true := by
      rw [Bool.not_eq_true', ← Bool.not_eq_true, Bool.and_eq_true, decide_eq_true_eq,
        decide_eq_true_eq]
      rintro ⟨rfl, rfl⟩
      exact hne (Prod.ext h.symm hd.symm)
    rw [Has, filter_cons, if_pos hkept, List.find?_cons_of_pos (by simpa using hd),
      Option.map_some, h]
  simp only [hd, decide_false] at h
  have hds := ih h
  rw [filter_cons]
  split_ifs
  · rw [Has, List.find?_cons_of_neg (by simpa using hd)]
    exact hds
  · exact hds

@[simp] theorem keys_touch (id : ℕ) (now : ℤ) (devices : List PairedDeviceRecord) :
  keys (touch id now devices) = keys devices
  := by
  induction devices with
  | nil => rfl
  | cons d ds ih =>
  rw [touch]
  split_ifs
  · rfl
  · rw [keys, map_cons, ← keys, ih]
    rfl

theorem has_touch
    (h : Has devices token) (id : ℕ) (now : ℤ) :
  Has (touch id now devices) token
  := by
  induction devices with
  | nil => exact h
  | cons d ds ih =>
  rw [Has, List.find?_cons] at h
  rw [touch, Has]
  by_cases hd : d.id = token.sub
  · simp only [hd, decide_true, Option.map_some] at h
    split_ifs
    all_goals
      rw [List.find?_cons_of_pos (by simpa using hd)]
      exact h
  simp only [hd, decide_false] at h
  split_ifs
  · rw [List.find?_cons_of_neg (by simpa using hd)]
    exact h
  · rw [List.find?_cons_of_neg (by simpa using hd)]
    exact ih h

/-- A device that is put on the list is found there, if none on it has its identifier. -/
theorem has_new {lastSeen : ℤ} (h : ∀ k ∈ keys devices, k.2 ≠ token.sub) :
  Has (devices ++ [⟨token.sub, token.client, lastSeen⟩]) token
  := by
  have hnone : devices.find? (fun d => d.id = token.sub) = none := by
    rw [List.find?_eq_none]
    intro d hd heq
    exact h _ (mem_map.mpr ⟨d, hd, rfl⟩) (by simpa using heq)
  rw [Has, List.find?_append, hnone, Option.none_or, List.find?_singleton]
  simp

/-! ### Devices -/

/-- The list has the devices of the tokens that were returned and of which the device was not
revoked, and none that was revoked. -/
structure Good (w : PairingStore) (devices : List PairedDeviceRecord) : Prop where
  lt : ∀ k ∈ keys devices, k.2 < w.fresh
  has : ∀ token ∈ w.issued, token.device ∉ w.revoking → Has devices token
  lost : ∀ k ∈ w.revoked, k ∉ keys devices

/-- The list is what the call that waits for it to be saved has made of it. -/
def Serves (w : PairingStore) (devices : List PairedDeviceRecord) : Waiter → Prop
  | .redeem token => token.device ∉ w.revoking → Has devices token
  | .revoke device => device ∈ w.revoking ∧ device ∉ keys devices
  | .touch => True

/-- What holds in settled runs: the list in memory, the one in the file and the one that is written
are good, and nothing is saved before the list has been read. -/
structure Kept (w : PairingStore) : Prop where
  reading : w.loading → w.loaded
  idle : w.loaded = false ∨ w.loading → w.saves = [] ∧ w.devices = []
  memory : w.loaded → w.loading = false → Good w w.devices
  stored : Good w (w.file.getD [])
  writing : ∀ s ∈ w.saves, ∀ devices ∈ s.snapshot, Good w devices ∧ Serves w devices s.waiter
  waiting : ∀ s ∈ w.saves, Serves w w.devices s.waiter
  single : ∀ (i j : ℕ) (s t : Save), w.saves[i]? = some s → w.saves[j]? = some t →
    s.snapshot ≠ none → t.snapshot ≠ none → i = j
  revoking_lt : ∀ k ∈ w.revoking, k.2 < w.fresh
  revoked : ∀ k ∈ w.revoked, k ∈ w.revoking

/-- A list stays good while more identifiers are drawn and more devices are revoked. -/
theorem good_mono (h : Good w devices)
    (hfresh : w.fresh ≤ w'.fresh) (hissued : w'.issued = w.issued)
    (hrevk : w.revoking ⊆ w'.revoking) (hrevd : w'.revoked = w.revoked) :
  Good w' devices
  := by
  constructor
  · intro k hk
    exact (h.lt k hk).trans_le hfresh
  · intro token ht hr
    rw [hissued] at ht
    exact h.has token ht fun hr' => hr (hrevk hr')
  · rw [hrevd]
    exact h.lost

variable {waiter : Waiter}

theorem serves_mono
    (h : Serves w devices waiter) (hrevk : w.revoking ⊆ w'.revoking) :
  Serves w' devices waiter
  := by
  cases waiter with
  | redeem token => exact fun hr => h fun hr' => hr (hrevk hr')
  | revoke device => exact ⟨hrevk h.1, h.2⟩
  | touch => trivial

/-- Steps that leave all but the codes as they are. -/
theorem kept_of_same (h : Kept w) (hdevs : w'.devices = w.devices)
    (hloaded : w'.loaded = w.loaded) (hload : w'.loading = w.loading)
    (hfile : w'.file = w.file) (hsaves : w'.saves = w.saves) (hfresh : w'.fresh = w.fresh)
    (hissued : w'.issued = w.issued) (hrevk : w'.revoking = w.revoking)
    (hrevd : w'.revoked = w.revoked) :
  Kept w'
  := by
  have hsubset : w.revoking ⊆ w'.revoking := by
    rw [hrevk]
    exact List.Subset.refl _
  have hgood {devices : List PairedDeviceRecord} (hg : Good w devices) : Good w' devices :=
    good_mono hg hfresh.ge hissued hsubset hrevd
  constructor
  · rw [hloaded, hload]
    exact h.reading
  · rw [hloaded, hload, hsaves, hdevs]
    exact h.idle
  · rw [hloaded, hload, hdevs]
    exact fun hl hl' => hgood (h.memory hl hl')
  · rw [hfile]
    exact hgood h.stored
  · rw [hsaves]
    intro s hs devices hd
    obtain ⟨hg, hserv⟩ := h.writing s hs devices hd
    exact ⟨hgood hg, serves_mono hserv hsubset⟩
  · rw [hsaves, hdevs]
    intro s hs
    exact serves_mono (h.waiting s hs) hsubset
  · rw [hsaves]
    exact h.single
  · rw [hrevk, hfresh]
    exact h.revoking_lt
  · rw [hrevd, hrevk]
    exact h.revoked

/-- A call that changes the list has it saved: the new list is good and is what the calls that wait
have made of it. -/
theorem kept_persist (h : Kept w) (hloaded : w'.loaded)
    (hload : w'.loading = false) (hfile : w'.file = w.file)
    (hsaves : w'.saves = w.saves ++ [⟨waiter, none⟩]) (hfresh : w.fresh ≤ w'.fresh)
    (hissued : w'.issued = w.issued) (hrevk : w.revoking ⊆ w'.revoking)
    (hrevd : w'.revoked = w.revoked) (hgood : Good w' w'.devices)
    (hserv : ∀ waiter', Serves w w.devices waiter' → Serves w' w'.devices waiter')
    (hnew : Serves w' w'.devices waiter) (hlt : ∀ k ∈ w'.revoking, k.2 < w'.fresh) :
  Kept w'
  := by
  have hmono {devices : List PairedDeviceRecord} (hg : Good w devices) : Good w' devices :=
    good_mono hg hfresh hissued hrevk hrevd
  have hget {i : ℕ} {s : Save} (hs : w'.saves[i]? = some s) (hsnap : s.snapshot ≠ none) :
      w.saves[i]? = some s := by
    rw [hsaves, List.getElem?_append] at hs
    split_ifs at hs with hi
    · exact hs
    · obtain rfl := mem_singleton.mp (mem_of_getElem? hs)
      exact absurd rfl hsnap
  constructor
  · exact fun _ => hloaded
  · rintro (hno | hno)
    · cases hloaded.symm.trans hno
    · cases hload.symm.trans hno
  · exact fun _ _ => hgood
  · rw [hfile]
    exact hmono h.stored
  · intro s hs devices hd
    rw [hsaves, mem_append] at hs
    obtain hs | hs := hs
    · obtain ⟨hg, hs⟩ := h.writing s hs devices hd
      exact ⟨hmono hg, serves_mono hs hrevk⟩
    · obtain rfl := mem_singleton.mp hs
      cases hd
  · intro s hs
    rw [hsaves, mem_append] at hs
    obtain hs | hs := hs
    · exact hserv s.waiter (h.waiting s hs)
    · obtain rfl := mem_singleton.mp hs
      exact hnew
  · intro i j s t hs ht hs' ht'
    exact h.single i j s t (hget hs hs') (hget ht ht') hs' ht'
  · exact hlt
  · rw [hrevd]
    exact fun k hk => hrevk (h.revoked k hk)

/-- A device that is put on the list. -/
theorem kept_redeem (h : Kept w)
    (hl : w.loaded) (hl' : w.loading = false) (code : String) (now : ℤ) :
  Kept (w.redeem o code now)
  := by
  rw [PairingStore.redeem]
  simp only
  cases ((w.sweepCodes now).codes.filter
      fun c => now < c.expiresAt && c.code = code).getLast? with
  | none => exact kept_of_same h rfl rfl rfl rfl rfl rfl rfl rfl rfl
  | some matched =>
  simp only
  cases matched.kind with
  | machine => exact kept_of_same h rfl rfl rfl rfl rfl rfl rfl rfl rfl
  | device =>
  have hmemory := h.memory hl hl'
  have hne : ∀ k ∈ keys w.devices, k.2 ≠ w.fresh := fun k hk => (hmemory.lt k hk).ne
  have hmem {k : String × ℕ} {d : PairedDeviceRecord} (hk : k ∈ keys (w.devices ++ [d])) :
      k ∈ keys w.devices ∨ k = (d.client, d.id) := by
    rw [keys, map_append, mem_append] at hk
    exact hk.imp_right mem_singleton.mp
  dsimp only
  apply kept_persist h (by exact hl) (by exact hl') (by rfl) (by rfl)
    (by exact Nat.le_succ w.fresh) (by rfl) (by exact List.Subset.refl _) (by rfl)
  · constructor
    · intro k hk
      obtain hk | rfl := hmem hk
      · exact (hmemory.lt k hk).trans (Nat.lt_succ_self _)
      · exact Nat.lt_succ_self w.fresh
    · intro token ht hr
      exact has_append (hmemory.has token ht hr) _
    intro k hk hin
    obtain hin | rfl := hmem hin
    · exact hmemory.lost k hk hin
    · exact absurd (h.revoking_lt _ (h.revoked _ hk)) (lt_irrefl _)
  · intro waiter hs
    cases waiter with
    | redeem token => exact fun hr => has_append (hs hr) _
    | revoke device =>
      use hs.1
      intro hin
      obtain hin | rfl := hmem hin
      · exact hs.2 hin
      · exact absurd (h.revoking_lt _ hs.1) (lt_irrefl _)
    | touch => trivial
  · intro _
    exact has_new hne
  · intro k hk
    exact (h.revoking_lt k hk).trans (Nat.lt_succ_self _)

/-- A device that is taken off the list. -/
theorem kept_revokeDevice (h : Kept w) (hl : w.loaded)
    (hl' : w.loading = false) (client : String) (id : ℕ) :
  Kept (w.revokeDevice client id)
  := by
  have hmem := h.memory hl hl'
  rw [PairingStore.revokeDevice]
  split_ifs with hlen
  · have hsame : (w.devices.filter fun d => !(d.client = client && d.id = id)) = w.devices :=
      filter_sublist.eq_of_length hlen
    rw [hsame]
    exact h
  have hsub : keys (w.devices.filter fun d => !(d.client = client && d.id = id)) ⊆
      keys w.devices := (filter_sublist.map _).subset
  have hgone : (client, id) ∉
      keys (w.devices.filter fun d => !(d.client = client && d.id = id)) := by
    intro hin
    obtain ⟨d, hd, hkey⟩ := mem_map.mp hin
    obtain ⟨rfl, rfl⟩ := Prod.mk.inj hkey
    simp at hd
  have hhas {token : DeviceToken} (ht : token.device ∉ w.revoking ++ [(client, id)])
      (hs : token.device ∉ w.revoking → Has w.devices token) :
      Has (w.devices.filter fun d => !(d.client = client && d.id = id)) token := by
    rw [mem_append, mem_singleton, not_or] at ht
    exact has_filter (hs ht.1) ht.2
  have hkey : id < w.fresh := by
    have hin : (client, id) ∈ keys w.devices := by
      by_contra hnot
      apply hlen
      congr 1
      rw [filter_eq_self]
      intro d hd
      rw [Bool.not_eq_true', ← Bool.not_eq_true, Bool.and_eq_true, decide_eq_true_eq,
        decide_eq_true_eq]
      rintro ⟨rfl, rfl⟩
      exact hnot (mem_map.mpr ⟨d, hd, rfl⟩)
    exact hmem.lt _ hin
  apply kept_persist h (by exact hl) (by exact hl') (by rfl) (by rfl)
    (by exact le_rfl) (by rfl) (by exact subset_append_left _ _) (by rfl)
  · constructor
    · exact fun k hk => hmem.lt k (hsub hk)
    · exact fun token ht hr => hhas hr (hmem.has token ht)
    · exact fun k hk hin => hmem.lost k hk (hsub hin)
  · intro waiter hs
    cases waiter with
    | redeem token => exact fun hr => hhas hr hs
    | revoke device =>
      exact ⟨mem_append_left _ hs.1, fun hin => hs.2 (hsub hin)⟩
    | touch => trivial
  · exact ⟨mem_append_right _ (mem_singleton.mpr rfl), hgone⟩
  intro k hk
  obtain hk | hk := mem_append.mp hk
  · exact h.revoking_lt k hk
  · obtain rfl := mem_singleton.mp hk
    exact hkey

/-- A device that was seen. -/
theorem kept_verifyDeviceToken (h : Kept w)
    (hl : w.loaded) (hl' : w.loading = false) (token : DeviceToken) (now : ℤ) :
  Kept (w.verifyDeviceToken o token now)
  := by
  have hmem := h.memory hl hl'
  rw [PairingStore.verifyDeviceToken]
  cases w.deviceOf o token now with
  | none => exact h
  | some device =>
  dsimp only
  split_ifs
  · apply kept_persist h (by exact hl) (by exact hl') (by rfl) (by rfl)
      (by exact le_rfl) (by rfl) (by exact List.Subset.refl _) (by rfl)
    · constructor
      · simpa [PairingStore.persist] using hmem.lt
      · exact fun token ht hr => has_touch (hmem.has token ht hr) _ _
      · simpa [PairingStore.persist] using hmem.lost
    · intro waiter hs
      cases waiter with
      | redeem token => exact fun hr => has_touch (hs hr) _ _
      | revoke device => simpa [Serves, PairingStore.persist] using hs
      | touch => trivial
    · trivial
    · exact h.revoking_lt
  · exact h

/-- The list is written as it is now, if no other save is being written. -/
theorem kept_capture (h : Kept w) (hw : Unwritten w) (k : ℕ) :
  Kept (w.capture k)
  := by
  have hget {i : ℕ} {s : Save} (hs : (w.capture k).saves[i]? = some s) :
      ∃ t, w.saves[i]? = some t ∧ s.waiter = t.waiter ∧
        (s.snapshot = none ∨ k = i ∧ s.snapshot = some w.devices) := by
    rw [PairingStore.capture, List.getElem?_modify] at hs
    obtain ⟨t, ht, rfl⟩ := Option.map_eq_some_iff.mp hs
    use t, ht
    have hnone := hw t (mem_of_getElem? ht)
    by_cases hk : k = i
    all_goals simp [hk, hnone]
  have hgood {devices : List PairedDeviceRecord} (hg : Good w devices) :
      Good (w.capture k) devices := good_mono hg le_rfl rfl (List.Subset.refl _) rfl
  constructor
  · exact h.reading
  · intro hidle
    obtain ⟨hsaves, hdevs⟩ := h.idle hidle
    exact ⟨by simp [PairingStore.capture, hsaves], hdevs⟩
  · exact fun hl hl' => hgood (h.memory hl hl')
  · exact hgood h.stored
  · intro s hs devices hd
    obtain ⟨i, hi⟩ := mem_iff_getElem?.mp hs
    obtain ⟨t, ht, hwaiter, hnone | ⟨-, hsome⟩⟩ := hget hi
    · rw [hnone] at hd
      cases hd
    rw [hsome] at hd
    cases hd
    have ht := mem_of_getElem? ht
    have hnotidle : ¬ (w.loaded = false ∨ w.loading) := by
      intro hidle
      rw [(h.idle hidle).1] at ht
      cases ht
    rw [not_or, Bool.not_eq_false, Bool.not_eq_true] at hnotidle
    rw [hwaiter]
    exact ⟨hgood (h.memory hnotidle.1 hnotidle.2), h.waiting t ht⟩
  · intro s hs
    obtain ⟨i, hi⟩ := mem_iff_getElem?.mp hs
    obtain ⟨t, ht, hwaiter, -⟩ := hget hi
    rw [hwaiter]
    exact h.waiting t (mem_of_getElem? ht)
  · intro i j s t hs ht hs' ht'
    obtain ⟨-, -, -, hnone | ⟨rfl, -⟩⟩ := hget hs
    · exact absurd hnone hs'
    · obtain ⟨-, -, -, hnone | ⟨rfl, -⟩⟩ := hget ht
      · exact absurd hnone ht'
      · rfl
  · exact h.revoking_lt
  · exact h.revoked

/-- A save ends, and no other one is being written. -/
theorem kept_erase {w w' : PairingStore} {k : ℕ} (h : Kept w)
    (hdevs : w'.devices = w.devices) (hloaded : w'.loaded = w.loaded)
    (hload : w'.loading = w.loading) (hsaves : w'.saves = w.saves.eraseIdx k)
    (hfresh : w'.fresh = w.fresh) (hrevk : w'.revoking = w.revoking)
    (hrevd : ∀ d ∈ w'.revoked, d ∈ w'.revoking)
    (hmem : w.loaded → w.loading = false → Good w' w.devices)
    (hstor : Good w' (w'.file.getD []))
    (hgood : ∀ (i : ℕ) (s : Save), w.saves[i]? = some s → i ≠ k → ∀ devices ∈ s.snapshot,
      Good w' devices) :
  Kept w'
  := by
  have hsubset : w.revoking ⊆ w'.revoking := by
    rw [hrevk]
    exact List.Subset.refl _
  constructor
  · rw [hloaded, hload]
    exact h.reading
  · rw [hloaded, hload, hsaves, hdevs]
    intro hidle
    obtain ⟨hnil, hdevs⟩ := h.idle hidle
    exact ⟨by rw [hnil]; rfl, hdevs⟩
  · rw [hloaded, hload, hdevs]
    exact hmem
  · exact hstor
  · intro s hs devices hd
    rw [hsaves] at hs
    obtain ⟨i, hi, hs'⟩ := mem_eraseIdx_iff_getElem?.mp hs
    have hserv := (h.writing s (mem_of_getElem? hs') devices hd).2
    exact ⟨hgood i s hs' hi devices hd, serves_mono hserv hsubset⟩
  · rw [hsaves, hdevs]
    intro s hs
    exact serves_mono (h.waiting s (mem_of_mem_eraseIdx hs)) hsubset
  · rw [hsaves]
    intro i j s t hs ht hs' ht'
    rw [List.getElem?_eraseIdx] at hs ht
    split_ifs at hs ht
    · exact h.single i j s t hs ht hs' ht'
    all_goals
      have heq := h.single _ _ s t hs ht hs' ht'
      omega
  · rw [hrevk, hfresh]
    exact h.revoking_lt
  · exact hrevd

/-- A list that is what the call that waits has made of it is still good when the call returns. -/
theorem good_settle
    (h : Good w devices) (hs : Serves w devices waiter) (hfresh : w'.fresh = w.fresh)
    (hissued : w'.issued = w.issued) (hrevk : w'.revoking = w.revoking)
    (hrevd : w'.revoked = w.revoked) :
  Good (w'.settle waiter) devices
  := by
  cases waiter with
  | redeem token =>
    constructor
    · exact fun k hk => (h.lt k hk).trans_eq hfresh.symm
    · intro t ht hr
      rw [PairingStore.settle, hissued] at ht
      change t.device ∉ w'.revoking at hr
      rw [hrevk] at hr
      obtain ht | ht := mem_append.mp ht
      · exact h.has t ht hr
      · obtain rfl := mem_singleton.mp ht
        exact hs hr
    · intro k hk
      exact h.lost k (hrevd ▸ hk)
  | revoke device =>
    constructor
    · exact fun k hk => (h.lt k hk).trans_eq hfresh.symm
    · intro t ht hr
      exact h.has t (hissued ▸ ht) (hrevk ▸ hr)
    intro k hk
    rw [PairingStore.settle, hrevd] at hk
    obtain hk | hk := mem_append.mp hk
    · exact h.lost k hk
    · obtain rfl := mem_singleton.mp hk
      exact hs.2
  | touch => exact good_mono h hfresh.ge hissued (hrevk ▸ List.Subset.refl _) hrevd

theorem kept_written (h : Kept w) (k : ℕ) :
  Kept (w.written k)
  := by
  rw [PairingStore.written]
  split
  · rename_i waiter devices hk
    have hmem := mem_of_getElem? hk
    obtain ⟨hgood, hserv⟩ := h.writing _ hmem devices rfl
    have hwait : Serves w w.devices waiter := h.waiting _ hmem
    have hunwritten : ∀ (i : ℕ) (s : Save), w.saves[i]? = some s → i ≠ k → s.snapshot = none := by
      intro i s hs hi
      by_contra hsome
      exact hi (h.single i k s _ hs hk hsome (by simp))
    apply @kept_erase w _ k h
    · cases waiter <;> rfl
    · cases waiter <;> rfl
    · cases waiter <;> rfl
    · cases waiter <;> rfl
    · cases waiter <;> rfl
    · cases waiter <;> rfl
    · cases waiter with
      | redeem token | touch => exact h.revoked
      | revoke device =>
        intro d hd
        obtain hd | hd := mem_append.mp hd
        · exact h.revoked d hd
        · obtain rfl := mem_singleton.mp hd
          exact hserv.1
    · intro hl hl'
      exact good_settle (h.memory hl hl') hwait rfl rfl rfl rfl
    · have hfile : ({ w with file := some devices, saves := w.saves.eraseIdx k }.settle
          waiter).file = some devices := by
        cases waiter <;> rfl
      rw [hfile]
      exact good_settle hgood hserv rfl rfl rfl rfl
    · intro i s hs hi ds hds
      rw [hunwritten i s hs hi] at hds
      cases hds
  · exact h

/-- Settled steps keep the lists good. -/
theorem kept_step {a : Action} (h : Kept w) (ha : Settled w a) :
  Kept (w.step o a)
  := by
  cases a with
  | ensureLoaded =>
    rw [PairingStore.step]
    split_ifs with hl
    · exact h
    obtain ⟨hsaves, hdevs⟩ := h.idle (Or.inl (by simpa using hl))
    have hnone {s : Save} (hs : s ∈ w.saves) : False := by
      rw [hsaves] at hs
      cases hs
    constructor
    · exact fun _ => rfl
    · exact fun _ => ⟨hsaves, hdevs⟩
    · intro _ hl'
      cases hl'
    · exact good_mono h.stored le_rfl rfl (List.Subset.refl _) rfl
    · exact fun s hs => (hnone hs).elim
    · exact fun s hs => (hnone hs).elim
    · exact h.single
    · exact h.revoking_lt
    · exact h.revoked
  | load =>
    rw [PairingStore.step]
    split_ifs with hl
    · obtain ⟨hsaves, hdevs⟩ := h.idle (Or.inr hl)
      have hnone {s : Save} (hs : s ∈ w.saves) : False := by
        rw [hsaves] at hs
        cases hs
      constructor
      · intro hno
        cases hno
      · rintro (hno | hno)
        · cases (h.reading hl).symm.trans hno
        · cases hno
      · intro _ _
        rw [PairingStore.load, hdevs]
        exact good_mono h.stored le_rfl rfl (List.Subset.refl _) rfl
      · exact good_mono h.stored le_rfl rfl (List.Subset.refl _) rfl
      · exact fun s hs => (hnone hs).elim
      · exact fun s hs => (hnone hs).elim
      · exact h.single
      · exact h.revoking_lt
      · exact h.revoked
    · exact h
  | createCode code client kind now =>
    rw [PairingStore.step]
    split_ifs
    · exact kept_of_same h rfl rfl rfl rfl rfl rfl rfl rfl rfl
    · exact h
  | redeem code now =>
    rw [PairingStore.step]
    split_ifs with hl
    · exact kept_redeem h hl ha code now
    · exact h
  | listDevices => exact h
  | revokeDevice client id =>
    rw [PairingStore.step]
    split_ifs with hl
    · exact kept_revokeDevice h hl ha client id
    · exact h
  | verifyDeviceToken token now =>
    rw [PairingStore.step]
    split_ifs with hl
    · exact kept_verifyDeviceToken h hl ha token now
    · exact h
  | capture k => exact kept_capture h ha k
  | failed k =>
    rw [PairingStore.step]
    split
    · apply @kept_erase w { w with saves := w.saves.eraseIdx k } k h rfl rfl rfl rfl rfl rfl h.revoked
      · intro hl hl'
        exact good_mono (h.memory hl hl') le_rfl rfl (List.Subset.refl _) rfl
      · exact good_mono h.stored le_rfl rfl (List.Subset.refl _) rfl
      · intro i s hs _ devices hd
        obtain ⟨hgood, -⟩ := h.writing s (mem_of_getElem? hs) devices hd
        exact good_mono hgood le_rfl rfl (List.Subset.refl _) rfl
    · exact h
  | written k => exact kept_written h k
  | restart =>
  constructor
  · intro hl
    cases hl
  · exact fun _ => ⟨rfl, rfl⟩
  · intro hl
    cases hl
  · exact good_mono h.stored le_rfl rfl (List.Subset.refl _) rfl
  · exact fun s hs => absurd hs not_mem_nil
  · exact fun s hs => absurd hs not_mem_nil
  · intro i j s t hs
    cases hs
  · exact h.revoking_lt
  · exact h.revoked

/-! ### The claims of tokens -/

/-- The tokens that were returned, or are to be when the list is saved, are tokens of devices. -/
structure Signed (o : PairingStoreOptions) (w : PairingStore) : Prop where
  issued : ∀ token ∈ w.issued, token.typ = "device" ∧ token.iss = o.issuer
  saves : ∀ s ∈ w.saves, ∀ token, s.waiter = .redeem token →
    token.typ = "device" ∧ token.iss = o.issuer

theorem signed_persist
    (h : Signed o w) (hissued : w'.issued = w.issued)
    (hsaves : w'.saves = w.saves ++ [⟨waiter, none⟩])
    (hwaiter : ∀ token, waiter = .redeem token → token.typ = "device" ∧ token.iss = o.issuer) :
  Signed o w'
  := by
  constructor
  · rw [hissued]
    exact h.issued
  rw [hsaves]
  intro s hs
  obtain hs | hs := mem_append.mp hs
  · exact h.saves s hs
  · obtain rfl := mem_singleton.mp hs
    exact hwaiter

theorem signed_step (h : Signed o w) (a : Action) :
  Signed o (w.step o a)
  := by
  cases a with
  | ensureLoaded =>
    rw [PairingStore.step]
    split_ifs
    · exact h
    · exact ⟨h.issued, h.saves⟩
  | load | createCode code client kind now =>
    rw [PairingStore.step]
    split_ifs
    · exact ⟨h.issued, h.saves⟩
    · exact h
  | redeem code now =>
    rw [PairingStore.step]
    split_ifs
    · rw [PairingStore.redeem]
      dsimp only
      cases ((w.sweepCodes now).codes.filter
          fun c => now < c.expiresAt && c.code = code).getLast? with
      | none => exact ⟨h.issued, h.saves⟩
      | some matched =>
      dsimp only
      cases matched.kind with
      | machine => exact ⟨h.issued, h.saves⟩
      | device =>
        apply signed_persist h (by rfl) (by rfl)
        rintro token ⟨⟩
        exact ⟨rfl, rfl⟩
    · exact h
  | listDevices => exact h
  | revokeDevice client id =>
    simp only [PairingStore.step, PairingStore.revokeDevice]
    split_ifs
    · exact ⟨h.issued, h.saves⟩
    · apply signed_persist h (by rfl) (by rfl)
      rintro token ⟨⟩
    · exact h
  | verifyDeviceToken token now =>
    simp only [PairingStore.step, PairingStore.verifyDeviceToken]
    split_ifs
    · cases w.deviceOf o token now with
      | none => exact h
      | some device =>
        dsimp only
        split_ifs
        · apply signed_persist h (by rfl) (by rfl)
          rintro token ⟨⟩
        · exact h
    · exact h
  | capture k =>
    use h.issued
    intro s hs
    obtain ⟨i, hi⟩ := mem_iff_getElem?.mp hs
    rw [PairingStore.step, PairingStore.capture, List.getElem?_modify] at hi
    obtain ⟨t, ht, rfl⟩ := Option.map_eq_some_iff.mp hi
    have hsame : ∀ token, t.waiter = .redeem token →
      token.typ = "device" ∧ token.iss = o.issuer := h.saves t (mem_of_getElem? ht)
    split_ifs
    all_goals exact hsame
  | failed k =>
    rw [PairingStore.step]
    split
    · exact ⟨h.issued, fun s hs => h.saves s (mem_of_mem_eraseIdx hs)⟩
    · exact h
  | written k =>
    rw [PairingStore.step, PairingStore.written]
    split
    · rename_i waiter devices hk
      have hsaves : ∀ s ∈ w.saves.eraseIdx k, ∀ token, s.waiter = .redeem token →
          token.typ = "device" ∧ token.iss = o.issuer :=
        fun s hs => h.saves s (mem_of_mem_eraseIdx hs)
      cases waiter with
      | redeem token =>
        constructor
        · intro t ht
          obtain ht | ht := mem_append.mp ht
          · exact h.issued t ht
          · obtain rfl := mem_singleton.mp ht
            exact h.saves _ (mem_of_getElem? hk) t rfl
        · exact hsaves
      | revoke device | touch => exact ⟨h.issued, hsaves⟩
    · exact h
  | restart => exact ⟨h.issued, fun s hs => absurd hs not_mem_nil⟩

/-! ### The result -/

theorem kept_initial (file : Option (List PairedDeviceRecord)) :
  Kept (.initial file)
  := by
  have hlt : ∀ l : List (String × ℕ), ∀ k ∈ l, k.2 < l.foldr (fun k n => max (k.2 + 1) n) 0 := by
    intro l
    induction l with
    | nil =>
      intro k hk
      cases hk
    | cons k' l ih =>
    intro k hk
    rw [foldr_cons, lt_max_iff]
    obtain rfl | hk := mem_cons.mp hk
    · exact Or.inl (Nat.lt_succ_self _)
    · exact Or.inr (ih k hk)
  constructor
  · intro hl
    cases hl
  · exact fun _ => ⟨rfl, rfl⟩
  · intro hl
    cases hl
  · exact ⟨hlt _, fun token ht => absurd ht not_mem_nil,
      fun k hk => absurd hk not_mem_nil⟩
  · exact fun s hs => absurd hs not_mem_nil
  · exact fun s hs => absurd hs not_mem_nil
  · intro i j s t hs
    cases hs
  all_goals exact fun k hk => absurd hk not_mem_nil

/-- When the list has been read, tokens are honoured. -/
theorem honours_of_kept {a : Action} (h : Kept w) (hsigned : Signed o w) (ha : Settled w a) :
  Honours o w a
  := by
  cases a with
  | verifyDeviceToken token now =>
    intro hl
    have hgood := h.memory hl ha
    constructor
    · intro hissued hrevk hexp
      obtain ⟨htyp, hiss⟩ := hsigned.issued token hissued
      obtain ⟨d, hd, hcli⟩ := Option.map_eq_some_iff.mp (hgood.has token hissued hrevk)
      rw [PairingStore.deviceOf, if_neg (by simp [htyp, hiss, hexp]), hd,
        Option.filter_some, if_pos (by simpa using hcli)]
      rfl
    intro hrevd
    rw [PairingStore.deviceOf]
    split_ifs
    · rfl
    rw [Option.filter_eq_none_iff]
    intro d hd hcli
    apply hgood.lost token.device hrevd
    have hid := List.find?_some hd
    rw [decide_eq_true_eq] at hid hcli
    exact mem_map.mpr ⟨d, mem_of_find?_eq_some hd, Prod.ext hcli hid⟩
  | ensureLoaded | load | createCode | redeem | listDevices | revokeDevice | capture | failed
  | written | restart => trivial

/-- In every run codes are redeemed at most once and before they expire. In a run whose steps are
settled, a token that was returned is valid whenever it is verified until its device is revoked or
it expires, and it is not valid once the revocation of its device has returned. -/
theorem honours_of_settled {o : PairingStoreOptions} {file : Option (List PairedDeviceRecord)}
    {as : List Action}
    (h : ∀ past a rest, as = past ++ a :: rest → Settled (PairingStore.run o file past) a) :
  (∀ bs, RedeemsOnce (PairingStore.run o file bs)) ∧
    ∀ past a rest, as = past ++ a :: rest → Honours o (PairingStore.run o file past) a
  := by
  use redeemsOnce_run o file
  intro past a rest has
  have hguard : Guarded (fun w a => some (PairingStore.step o w a)) Settled
      (.initial file) past := by
    rw [guarded_some_iff]
    intro before b after hpast
    exact h before b (after ++ a :: rest) (by simp [has, hpast])
  have hrun := run_some (PairingStore.step o) (.initial file) past
  apply honours_of_kept _ _ (h past a rest has)
  · apply Guarded.invariant (I := Kept) _ (kept_initial file) hguard hrun
    intro w b w' hw hb hstep
    cases hstep
    exact kept_step hw hb
  apply run_invariant (I := Signed o) _ _ hrun
  · intro w b w' hw hstep
    cases hstep
    exact signed_step hw b
  · exact ⟨fun token ht => absurd ht not_mem_nil, fun s hs => absurd hs not_mem_nil⟩

/-- A store whose codes are valid for five minutes and whose tokens for thirty days. -/
def gateway : PairingStoreOptions where
  issuer := "gateway"
  codeTtlMs := 300000
  deviceTokenTtlSeconds := 2592000

/-- A device is paired and its token returned. -/
def paired : List Action :=
  [.ensureLoaded, .load, .createCode "A" "c" .device 0, .redeem "A" 1000, .capture 0, .written 0]

/-- A token is verified after the store was started again and its list has been read. -/
theorem honours_of_settled_restart :
  Honours gateway (PairingStore.run gateway none (paired ++ [.restart, .ensureLoaded, .load]))
    (.verifyDeviceToken ⟨"gateway", "device", 0, "c", 2592001⟩ 2000)
  := by
  have hguard : Guarded (fun w a => some (PairingStore.step gateway w a)) Settled (.initial none)
      (paired ++ [.restart, .ensureLoaded, .load,
        .verifyDeviceToken ⟨"gateway", "device", 0, "c", 2592001⟩ 2000]) := by
    refine ⟨trivial, trivial, trivial, rfl, ?_, trivial, ?_, trivial, trivial, rfl, trivial⟩
    · intro s hs
      obtain rfl := mem_singleton.mp hs
      rfl
    · intro s hs
      cases hs
  have h := honours_of_settled ((guarded_some_iff (PairingStore.step gateway)).mp hguard)
  exact h.2 (paired ++ [.restart, .ensureLoaded, .load])
    (.verifyDeviceToken ⟨"gateway", "device", 0, "c", 2592001⟩ 2000) [] rfl

/-- A token is verified while the list is read, and is not valid. A list that was seen before a
device was revoked is written after the one without it: the device is back when the store is started
again. -/
theorem not_honours :
  ¬ Honours gateway (PairingStore.run gateway none (paired ++ [.restart, .ensureLoaded]))
      (.verifyDeviceToken ⟨"gateway", "device", 0, "c", 2592001⟩ 2000) ∧
    ¬ Honours gateway (PairingStore.run gateway none (paired ++
        [.verifyDeviceToken ⟨"gateway", "device", 0, "c", 2592001⟩ 61000, .capture 0,
          .revokeDevice "c" 0, .capture 1, .written 1, .written 0, .restart, .ensureLoaded, .load]))
      (.verifyDeviceToken ⟨"gateway", "device", 0, "c", 2592001⟩ 62000)
  := by
  constructor
  · intro h
    exact absurd ((h (by decide)).1 (by decide) (by decide) (by decide)) (by decide)
  · intro h
    exact absurd ((h (by decide)).2 (by decide)) (by decide)

end Pairing
