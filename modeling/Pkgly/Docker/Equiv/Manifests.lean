import Pkgly.Algorithm.Run
import Pkgly.Docker.Manifests
import Pkgly.Storage.Equiv.DynStorage

/-!
# Content addressing of pushed manifests

A key `v2/<name>/manifests/sha256:<h>` names the digest `h` (`IsDigestKey`), and a storage is
content addressed when the object at every such key hashes to the digest it names
(`ContentAddressed`).  `putManifest` stores the body under the digest it computes, and under the
reference of the request without comparing that with the body.  So a sequence of pushes keeps the
storage content addressed, and no digest object is ever replaced by other bytes, exactly when
every push that gets to its save under a digest names the digest of its own body
(`digestsHold_iff`).
-/

namespace Pkgly.Docker

open StoragePath DynStorage

/-! ### Keys that name a digest -/

/-- `key` is `v2/<name>/manifests/sha256:<h>`. -/
def IsDigestKey (h : String) (key : List String) : Prop :=
  ∃ name : List String, key = "v2" :: (name ++ ["manifests", "sha256:" ++ h])

theorem components_objectPath (name kind digest : String) (hk : '/' ∉ kind.toList)
    (hk' : kind.toList ≠ []) : (ofString (objectPath name kind digest)).components =
      "v2" :: (segments '/' name ++ kind :: segments '/' digest) := by
  have hv2 : segments '/' "v2" = ["v2"] := segments_eq_singleton (by decide) (by decide)
  grind [components_ofString, objectPath, segments_slash, segments_eq_singleton]

theorem components_manifestPath (name reference : String) :
    (manifestPath name reference).components =
      "v2" :: (segments '/' name ++ "manifests" :: segments '/' reference) :=
  components_objectPath name "manifests" reference (by decide) (by decide)

theorem getLast?_key (name : List String) (a b : String) :
    ("v2" :: (name ++ [a, b])).getLast? = some b := by
  have heq : "v2" :: (name ++ [a, b]) = ("v2" :: (name ++ [a])) ++ [b] := by simp
  rw [heq, List.getLast?_concat]

theorem isDigestKey_append_iff {h reference : String} {name : List String} :
    IsDigestKey h ("v2" :: (name ++ ["manifests", reference])) ↔ reference = "sha256:" ++ h := by
  constructor
  · rintro ⟨name', heq⟩
    have hlast := congrArg List.getLast? heq
    rw [getLast?_key, getLast?_key] at hlast
    exact Option.some.inj hlast
  · rintro rfl
    exact ⟨name, rfl⟩

theorem isDigestKey_manifestPath_iff {h name reference : String}
    (hslash : '/' ∉ reference.toList) :
    IsDigestKey h (manifestPath name reference).components ↔ reference = "sha256:" ++ h := by
  rw [components_manifestPath]
  by_cases hempty : reference.toList = []
  · obtain rfl : reference = "" := String.toList_inj.mp (by rw [hempty]; rfl)
    have hne : ¬ "" = "sha256:" ++ h := by simp
    rw [segments_empty]
    refine iff_of_false ?_ hne
    rintro ⟨name', heq⟩
    have hlast := congrArg List.getLast? heq
    rw [getLast?_key, ← List.cons_append, List.getLast?_concat] at hlast
    have hhead := congrArg (fun s : String => s.toList.head?) (Option.some.inj hlast)
    simp [String.toList_append] at hhead
  · rw [segments_eq_singleton hslash hempty]
    exact isDigestKey_append_iff

theorem isDigestKey_digest_iff {sha : Sha256} {h name : String} {body : Bytes} :
    IsDigestKey h (manifestPath name (sha.digest body)).components ↔ sha.hex body = h := by
  rw [isDigestKey_manifestPath_iff (sha.slash_notMem_digest body), Sha256.digest]
  simp

/-! ### What a push stores -/

variable {sha : Sha256} {serde : SerdeJson} {settings : PushSettings} {st st' : DynStorage}
  {req : PutManifest}

def Stores (serde : SerdeJson) (settings : PushSettings) (st : DynStorage) (req : PutManifest) :
    Prop :=
  req.hasUser = true ∧ admitManifest serde settings st req = some (.ok ()) ∧
    ∃ st₁, st.saveFile req.body (manifestPath req.repositoryName req.reference) = .ok st₁

/-- What a push leaves behind: nothing new, the body under the reference, or the body under the
reference and under its digest. -/
theorem putManifest_cases (sha : Sha256) (serde : SerdeJson) (settings : PushSettings)
    (st : DynStorage) (req : PutManifest) :
    (putManifest sha serde settings st req).1 = st ∧ ¬ Stores serde settings st req ∨
    Stores serde settings st req ∧ ∃ st₁,
      st.saveFile req.body (manifestPath req.repositoryName req.reference) = .ok st₁ ∧
      ((putManifest sha serde settings st req).1 = st₁ ∨
        st₁.saveFile req.body (manifestPath req.repositoryName (sha.digest req.body)) =
          .ok (putManifest sha serde settings st req).1) := by
  unfold putManifest
  by_cases huser : req.hasUser = true
  swap
  · exact .inl ⟨by simp [huser], fun h => huser h.1⟩
  rw [huser, Bool.not_true, if_neg (by simp)]
  cases hadmit : admitManifest serde settings st req with
  | none => exact .inl ⟨rfl, fun h => by rw [h.2.1] at hadmit; simp at hadmit⟩
  | some r =>
    cases r with
    | error e => exact .inl ⟨rfl, fun h => by rw [h.2.1] at hadmit; simp at hadmit⟩
    | ok u =>
      unfold storeManifest
      cases hsave : st.saveFile req.body (manifestPath req.repositoryName req.reference) with
      | error e =>
        refine .inl ⟨rfl, fun h => ?_⟩
        obtain ⟨st₁, h₁⟩ := h.2.2
        rw [hsave] at h₁
        cases h₁
      | ok st₁ =>
        refine .inr ⟨⟨huser, hadmit, st₁, hsave⟩, st₁, rfl, ?_⟩
        grind

theorem get_putManifest (sha : Sha256) (h : Stores serde settings st req) :
    (putManifest sha serde settings st req).1.objects.get
      (manifestPath req.repositoryName req.reference).components = some req.body := by
  rcases putManifest_cases sha serde settings st req with ⟨-, hn⟩ | ⟨-, st₁, h₁, h₂⟩
  · exact absurd h hn
  obtain rfl := eq_of_saveFile h₁
  rcases h₂ with h₂ | h₂
  · rw [h₂]
    exact Store.get_put_self _ _ _
  · rw [eq_of_saveFile h₂, Store.get_put, Store.get_put_self, ite_self]

/-! ### Content addressing -/

def ContentAddressed (sha : Sha256) (st : DynStorage) : Prop :=
  ∀ h key content, IsDigestKey h key → st.objects.get key = some content → sha.hex content = h

theorem contentAddressed_empty (sha : Sha256) (backend : Backend) :
    ContentAddressed sha ⟨backend, ∅, ∅⟩ := by
  intro h key content _ hget
  rw [Store.get_empty] at hget
  cases hget

theorem ContentAddressed.saveFile {content : Bytes} {path : StoragePath}
    (hst : ContentAddressed sha st) (h : st.saveFile content path = .ok st')
    (hpath : ∀ h, IsDigestKey h path.components → sha.hex content = h) :
    ContentAddressed sha st' := by
  rw [eq_of_saveFile h]
  intro h key c hkey hget
  simp only [Store.get_put] at hget
  split_ifs at hget with heq
  · obtain rfl := Option.some.inj hget
    exact hpath h (heq ▸ hkey)
  · exact hst h key c hkey hget

def NamesOwnDigest (sha : Sha256) (serde : SerdeJson) (st : DynStorage)
    (call : PushSettings × PutManifest) : Prop :=
  Stores serde call.1 st call.2 → ∀ h,
    IsDigestKey h (manifestPath call.2.repositoryName call.2.reference).components →
      sha.hex call.2.body = h

theorem ContentAddressed.putManifest (hst : ContentAddressed sha st)
    (hown : NamesOwnDigest sha serde st (settings, req)) :
    ContentAddressed sha (putManifest sha serde settings st req).1 := by
  rcases putManifest_cases sha serde settings st req with ⟨heq, -⟩ | ⟨hs, st₁, h₁, h₂⟩
  · rw [heq]
    exact hst
  have hst₁ : ContentAddressed sha st₁ := hst.saveFile h₁ (hown hs)
  rcases h₂ with h₂ | h₂
  · rw [h₂]
    exact hst₁
  · exact hst₁.saveFile h₂ fun h => isDigestKey_digest_iff.mp

/-- Conversely, a content addressed result means that the push named the digest of its body. -/
theorem namesOwnDigest_of_contentAddressed
    (h : ContentAddressed sha (Docker.putManifest sha serde settings st req).1) :
    NamesOwnDigest sha serde st (settings, req) :=
  fun hs d hd => h d _ _ hd (get_putManifest sha hs)

/-! ### Sequences of pushes -/

/-- One call of `put_manifest`, with the settings it meets. -/
def pushStep (sha : Sha256) (serde : SerdeJson) (st : DynStorage)
    (call : PushSettings × PutManifest) : Option DynStorage :=
  some (putManifest sha serde call.1 st call.2).1

/-- Along the pushes `calls` from `st`: the storage stays content addressed, and a digest object
is never replaced by different bytes. -/
def DigestsHold (sha : Sha256) (serde : SerdeJson) (st : DynStorage)
    (calls : List (PushSettings × PutManifest)) : Prop :=
  ∀ pre st₁, pre <+: calls → run (pushStep sha serde) st pre = some st₁ →
    ContentAddressed sha st₁ ∧
    ∀ mid st₂, pre ++ mid <+: calls → run (pushStep sha serde) st₁ mid = some st₂ →
      ∀ h key content content', IsDigestKey h key → st₁.objects.get key = some content →
        st₂.objects.get key = some content' → content' = content

theorem ContentAddressed.run {calls : List (PushSettings × PutManifest)}
    (hst : ContentAddressed sha st) (hown : StepsOk (pushStep sha serde) (NamesOwnDigest sha serde)
      st calls) (hr : run (pushStep sha serde) st calls = some st') : ContentAddressed sha st' := by
  refine run_invariant_of_stepsOk (I := ContentAddressed sha) ?_ hst hown hr
  intro s call s' hs hcall hstep
  obtain rfl := Option.some.inj hstep
  exact hs.putManifest hcall

/-- **Pushes and content addressing**: every digest object keeps the content its name promises
exactly when every push that gets to a save under a digest names the digest of its body. -/
theorem digestsHold_iff (sha : Sha256) (serde : SerdeJson) (st : DynStorage)
    (calls : List (PushSettings × PutManifest)) (hst : ContentAddressed sha st) :
    DigestsHold sha serde st calls ↔
      StepsOk (pushStep sha serde) (NamesOwnDigest sha serde) st calls := by
  constructor
  · intro hold
    refine stepsOk_of_prefixes (I := ContentAddressed sha) (fun s call => ⟨_, rfl⟩) ?_
      fun pre t hpre ht => (hold pre t hpre ht).1
    intro s call s' hstep hs'
    obtain rfl := Option.some.inj hstep
    exact namesOwnDigest_of_contentAddressed hs'
  · intro hown pre st₁ hpre h₁
    obtain ⟨rest, rfl⟩ := hpre
    have hst₁ : ContentAddressed sha st₁ := hst.run hown.prefix h₁
    refine ⟨hst₁, fun mid st₂ hmid h₂ h key content content' hkey hget hget' => ?_⟩
    have hst₂ : ContentAddressed sha st₂ := by
      obtain ⟨rest', hrest⟩ := hmid
      rw [List.append_assoc, List.append_cancel_left_eq] at hrest
      have hsuf := hown.suffix h₁
      rw [← hrest] at hsuf
      exact hst₁.run hsuf.prefix h₂
    -- both contents have the digest that the key names
    exact sha.injective ((hst₂ h key content' hkey hget').trans
      (hst₁ h key content hkey hget).symm)

/-! ### A push under a digest that is not its own -/

/-- The manifest `{"schemaVersion":2}`. -/
def minimalManifest : Bytes :=
  "\x7b\"schemaVersion\":2\x7d".toList.map fun c => UInt8.ofNat c.toNat

/-- `serde_json` on that manifest. -/
def minimalSerde : SerdeJson where
  parse bytes := if bytes = minimalManifest then some (.obj [("schemaVersion", .int 2)]) else none
  acceptsValue _ := true

/-- `PUT /v2/img/manifests/sha256:0…0` of the minimal manifest. -/
def foreignDigestPush : PushSettings × PutManifest where
  fst := ⟨false, true, true, true⟩
  snd := {
    repositoryName := "img"
    reference := "sha256:" ++ String.ofList (List.replicate 64 '0')
    hasUser := true
    contentType := some MediaType.ociImageManifest
    body := minimalManifest }

theorem stores_foreignDigestPush (backend : Backend) :
    Stores minimalSerde foreignDigestPush.1 ⟨backend, ∅, ∅⟩ foreignDigestPush.2 := by
  refine ⟨rfl, rfl, ?_⟩
  cases backend
  · exact ⟨_, rfl⟩
  · exact ⟨_, rfl⟩

theorem digestsHold_iff_foreignDigestPush :
    ContentAddressed .hexText ⟨.local, ∅, ∅⟩ ∧
    (DigestsHold .hexText minimalSerde ⟨.local, ∅, ∅⟩ [foreignDigestPush] ↔
      StepsOk (pushStep .hexText minimalSerde) (NamesOwnDigest .hexText minimalSerde)
        ⟨.local, ∅, ∅⟩ [foreignDigestPush]) :=
  ⟨contentAddressed_empty _ _, digestsHold_iff _ _ _ _ (contentAddressed_empty _ _)⟩

/-- The body of that push is stored under a digest it does not have. -/
theorem not_digestsHold_foreignDigestPush :
    ¬ ∀ (sha : Sha256) (serde : SerdeJson) (st : DynStorage)
      (calls : List (PushSettings × PutManifest)),
      ContentAddressed sha st → DigestsHold sha serde st calls := by
  intro hall
  have hold := hall .hexText minimalSerde ⟨.local, ∅, ∅⟩ [foreignDigestPush]
    (contentAddressed_empty _ _)
  have haddr := (hold [foreignDigestPush] _ (List.prefix_refl _) rfl).1
  have hkey : IsDigestKey (String.ofList (List.replicate 64 '0'))
      (manifestPath "img" foreignDigestPush.2.reference).components :=
    (isDigestKey_manifestPath_iff (by decide)).mpr rfl
  have hhex := haddr _ _ _ hkey (get_putManifest _ (stores_foreignDigestPush .local))
  exact absurd hhex (by decide)

end Pkgly.Docker
