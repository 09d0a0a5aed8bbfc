import Pkgly.Docker.Challenge

/-!
# Correctness of the bearer challenges

`parseBearerChallenge_build_iff`: a challenge is read back as it was built if and only if no text in
it contains a comma, which leaves room for a single action only, since several are joined with
commas.  The reader splits at the commas before it looks at quotes, so that no value that it returns
has one (`clean_readParams`).
-/

namespace Pkgly.Docker

theorem trim_ofList (s : List Char) : trim (String.ofList s) = trimWhile isWhitespace s := by
  rw [trim, String.toList_ofList]
  rfl

theorem trimWhile_cons_concat {p : Char → Bool} {c d : Char} (hc : p c = false) (hd : p d = false)
    (s : List Char) : trimWhile p (c :: (s ++ [d])) = c :: (s ++ [d]) := by
  simp_all [trimWhile]

/-! ### One parameter -/

def quoted (s : List Char) : List Char := '"' :: (s ++ ['"'])

theorem trimWhile_quoted (s : List Char) : trimWhile isWhitespace (quoted s) = quoted s :=
  trimWhile_cons_concat (by decide) (by decide) s

theorem trimMatches_quoted (s : List Char) : trimMatches '"' (quoted s) = trimMatches '"' s := by
  have hquote : ∀ x ∈ ['"'], (x == '"') = true := fun x hx => by
    rw [List.mem_singleton.mp hx, beq_self_eq_true]
  exact trimWhile_append_append hquote hquote

theorem trimMatches_eq_self {c : Char} {s : List Char} (hhead : s.head? ≠ some c)
    (hlast : s.getLast? ≠ some c) : trimMatches c s = s := by
  refine trimWhile_eq_self (fun a ha => ?_) fun a ha => ?_
  · rw [beq_eq_false_iff_ne]
    rintro rfl
    exact hhead ha
  · rw [beq_eq_false_iff_ne]
    rintro rfl
    exact hlast ha

def param (key : String) (val : List Char) : List Char := key.toList ++ '=' :: quoted val

theorem readParam_param (key : String) (hkey : key ∈ ["realm", "service", "scope"])
    (val : List Char) :
    readParam (param key val) = some (key, String.ofList (trimMatches '"' val)) := by
  have hkeys : ∀ key ∈ ["realm", "service", "scope"],
      '=' ∉ key.toList ∧ trim key = key.toList := by decide
  obtain ⟨hequals, htrim⟩ := hkeys key hkey
  have hhead : ∃ c rest, key.toList = c :: rest ∧ isWhitespace c = false := by
    simp only [List.mem_cons, List.not_mem_nil, or_false] at hkey
    rcases hkey with rfl | rfl | rfl
    · exact ⟨'r', _, rfl, by decide⟩
    · exact ⟨'s', _, rfl, by decide⟩
    · exact ⟨'s', _, rfl, by decide⟩
  obtain ⟨c, rest, hcons, hvisible⟩ := hhead
  have hpart : trim (String.ofList (param key val)) = param key val := by
    rw [trim_ofList, param, hcons]
    have hconcat : c :: rest ++ '=' :: quoted val =
        c :: (rest ++ '=' :: '"' :: val ++ ['"']) := by simp [quoted]
    rw [hconcat]
    exact trimWhile_cons_concat hvisible (by decide) _
  have hsplit : splitOnce ['='] (param key val) = some (key.toList, quoted val) :=
    splitOnce_append hequals (quoted val)
  rw [readParam, hpart, hsplit]
  simp only [String.ofList_toList, htrim, trim_ofList, trimWhile_quoted, trimMatches_quoted]

def challengeParams (realm service scope : List Char) : List (List Char) :=
  [param "realm" realm, param "service" service, param "scope" scope]

theorem readParams_challengeParams (realm service scope : List Char) :
    readParams ⟨none, none, none⟩ (challengeParams realm service scope) =
      some ⟨some (String.ofList (trimMatches '"' realm)),
        some (String.ofList (trimMatches '"' service)),
        some (String.ofList (trimMatches '"' scope))⟩ := by
  simp only [challengeParams, readParams, readParam_param "realm" (by decide),
    readParam_param "service" (by decide), readParam_param "scope" (by decide)]
  rfl

/-! ### All parameters -/

/-- A value that the reader may return: no comma in it, and no quote at its end. -/
def CleanValue (value : Option String) : Prop :=
  ∀ v, value = some v → ',' ∉ v.toList ∧ v.toList.getLast? ≠ some '"'

structure BearerParams.Clean (params : BearerParams) : Prop where
  realm : CleanValue params.realm
  service : CleanValue params.service
  scope : CleanValue params.scope

theorem cleanValue_none : CleanValue none := fun _ h => nomatch h

theorem cleanValue_readParam {part : List Char} {key val : String} (hpart : ',' ∉ part)
    (h : readParam part = some (key, val)) : CleanValue (some val) := by
  rw [readParam] at h
  cases hsplit : splitOnce ['='] (trim (String.ofList part)) with
  | none =>
    rw [hsplit] at h
    cases h
  | some r =>
    obtain ⟨key', val'⟩ := r
    rw [hsplit] at h
    obtain ⟨-, rfl⟩ := Prod.mk.inj (Option.some.inj h)
    intro v hv
    obtain rfl := Option.some.inj hv
    rw [String.toList_ofList, trim_ofList]
    refine ⟨fun hcomma => hpart ?_, fun hlast => ?_⟩
    · have hval : ',' ∈ val' :=
        subset_trimWhile _ _ (subset_trimWhile _ _ hcomma)
      have htrim : ',' ∈ trim (String.ofList part) := by
        rw [eq_of_splitOnce hsplit]
        exact List.mem_append_right _ hval
      rw [trim_ofList] at htrim
      exact subset_trimWhile _ _ htrim
    · have hquote := getLast?_trimWhile hlast
      exact absurd hquote (by decide)

theorem BearerParams.Clean.set {params : BearerParams} (h : params.Clean) (key : String)
    {val : String} (hval : CleanValue (some val)) : (params.set key val).Clean := by
  unfold BearerParams.set
  split_ifs
  · exact ⟨hval, h.service, h.scope⟩
  · exact ⟨h.realm, hval, h.scope⟩
  · exact ⟨h.realm, h.service, hval⟩
  · exact h

theorem clean_readParams {params params' : BearerParams} {parts : List (List Char)}
    (hparts : ∀ part ∈ parts, ',' ∉ part) (hclean : params.Clean)
    (h : readParams params parts = some params') : params'.Clean := by
  induction parts generalizing params with
  | nil =>
    obtain rfl := Option.some.inj h
    exact hclean
  | cons part parts ih =>
    rw [readParams] at h
    cases hread : readParam part with
    | none =>
      rw [hread] at h
      cases h
    | some r =>
      obtain ⟨key, val⟩ := r
      rw [hread] at h
      have hval := cleanValue_readParam (hparts part List.mem_cons_self) hread
      exact ih (fun p hp => hparts p (List.mem_cons_of_mem part hp)) (hclean.set key hval) h

theorem clean_of_parseBearerChallenge {header realm service scope : String}
    (h : parseBearerChallenge header = some ⟨realm, some service, some scope⟩) :
    CleanValue (some realm) ∧ CleanValue (some service) ∧ CleanValue (some scope) := by
  rw [parseBearerChallenge] at h
  split_ifs at h
  cases hread : readParams ⟨none, none, none⟩
      ((trim (String.ofList (header.toList.drop "Bearer ".length))).splitOn ',') with
  | none =>
    rw [hread] at h
    cases h
  | some params =>
    rw [hread] at h
    obtain ⟨realm', hrealm, heq⟩ := Option.map_eq_some_iff.mp h
    obtain ⟨rfl, hservice, hscope⟩ := BearerChallenge.mk.inj heq
    have hclean := clean_readParams (fun part hpart => notMem_of_mem_splitOn hpart)
      ⟨cleanValue_none, cleanValue_none, cleanValue_none⟩ hread
    exact ⟨hrealm ▸ hclean.realm, hservice ▸ hclean.service, hscope ▸ hclean.scope⟩

/-! ### The round trip -/

theorem toList_buildDockerBearerChallenge (baseUrl service repositoryScope : String)
    (actions : List String) :
    (buildDockerBearerChallenge baseUrl service repositoryScope actions).toList =
      "Bearer ".toList ++ [','].intercalate (challengeParams (baseUrl ++ "/v2/token").toList
        service.toList (challengeScope repositoryScope actions).toList) := by
  have hjoin : ∀ a b c : List Char, [','].intercalate [a, b, c] = a ++ ',' :: (b ++ ',' :: c) := by
    intro a b c
    simp [List.intercalate]
  have hrealm : "Bearer realm=\"".toList = "Bearer ".toList ++ ("realm".toList ++ ['=', '"']) := by
    decide
  have hservice : "/v2/token\",service=\"".toList =
      "/v2/token".toList ++ ('"' :: ',' :: ("service".toList ++ ['=', '"'])) := by decide
  have hscope : "\",scope=\"".toList = '"' :: ',' :: ("scope".toList ++ ['=', '"']) := by decide
  have hend : "\"".toList = ['"'] := by decide
  unfold buildDockerBearerChallenge challengeParams
  simp [challengeScope, String.toList_append, param, quoted, List.append_assoc, List.cons_append,
    List.nil_append]

theorem startsWith_toAsciiLowercase {pat pat' : String} (hpat : toAsciiLowercase pat = pat')
    (s : String) : startsWith pat' (toAsciiLowercase (pat ++ s)) = true := by
  simp_all [toAsciiLowercase, startsWith_append]

theorem parseBearerChallenge_of_notMem {baseUrl service repositoryScope : String}
    {actions : List String} (hbase : ',' ∉ (baseUrl ++ "/v2/token").toList)
    (hservice : ',' ∉ service.toList)
    (hscope : ',' ∉ (challengeScope repositoryScope actions).toList) :
    parseBearerChallenge (buildDockerBearerChallenge baseUrl service repositoryScope actions) =
      some ⟨String.ofList (trimMatches '"' (baseUrl ++ "/v2/token").toList),
        some (String.ofList (trimMatches '"' service.toList)),
        some (String.ofList (trimMatches '"'
          (challengeScope repositoryScope actions).toList))⟩ := by
  set realm := (baseUrl ++ "/v2/token").toList
  set scope := (challengeScope repositoryScope actions).toList
  set header := buildDockerBearerChallenge baseUrl service repositoryScope actions
  set params := [','].intercalate (challengeParams realm service.toList scope) with hparams
  have hheader : header.toList = "Bearer ".toList ++ params :=
    toList_buildDockerBearerChallenge baseUrl service repositoryScope actions
  have hstart : startsWith "bearer " (toAsciiLowercase header) = true := by
    have happend : header = "Bearer " ++ String.ofList params := by
      rw [← String.toList_inj, hheader]
      simp
    rw [happend]
    exact startsWith_toAsciiLowercase (by decide) _
  have hdrop : header.toList.drop "Bearer ".length = params := by
    rw [hheader]
    exact List.drop_left
  have htrim : trim (String.ofList params) = params := by
    rw [trim_ofList]
    have hconcat : params = 'r' :: ("ealm=".toList ++ quoted realm ++
        ',' :: param "service" service.toList ++ ",scope=\"".toList ++ scope ++ ['"']) := by
      simp [hparams, challengeParams, param, quoted, List.intercalate]
    rw [hconcat]
    exact trimWhile_cons_concat (by decide) (by decide) _
  have hsplit : params.splitOn ',' = challengeParams realm service.toList scope := by
    refine List.splitOn_intercalate ',' ?_ (List.cons_ne_nil _ _)
    have hparam : ∀ (key : String) (val : List Char), ',' ∉ key.toList → ',' ∉ val →
        ',' ∉ param key val := by
      intro key val hkey hval
      simp [param, quoted, hkey, hval]
    intro part hpart
    simp only [challengeParams, List.mem_cons, List.not_mem_nil, or_false] at hpart
    rcases hpart with rfl | rfl | rfl
    · exact hparam _ _ (by decide) hbase
    · exact hparam _ _ (by decide) hservice
    · exact hparam _ _ (by decide) hscope
  rw [parseBearerChallenge, if_pos hstart, hdrop, htrim, hsplit, readParams_challengeParams]
  rfl

theorem comma_notMem_intercalate_iff {actions : List String} (hne : actions ≠ []) :
    ',' ∉ (String.intercalate "," actions).toList ↔
      ∃ action, actions = [action] ∧ ',' ∉ action.toList := by
  cases actions with
  | nil => exact absurd rfl hne
  | cons action rest =>
    cases rest with
    | nil | cons second rest =>
      simp

/-- A challenge is read back as it was built iff no text in it has a comma, that is, iff it is for
a single action. -/
theorem parseBearerChallenge_build_iff {baseUrl service repositoryScope : String}
    {actions : List String} (hbase : '"' ∉ baseUrl.toList) (hservice : '"' ∉ service.toList)
    (hne : actions ≠ []) :
    parseBearerChallenge (buildDockerBearerChallenge baseUrl service repositoryScope actions) =
        some ⟨baseUrl ++ "/v2/token", some service,
          some (challengeScope repositoryScope actions)⟩ ↔
      ',' ∉ baseUrl.toList ∧ ',' ∉ service.toList ∧ ',' ∉ repositoryScope.toList ∧
        ∃ action, actions = [action] ∧ ',' ∉ action.toList ∧
          action.toList.getLast? ≠ some '"' := by
  have hcomma : ',' ∉ (challengeScope repositoryScope actions).toList ↔
      ',' ∉ repositoryScope.toList ∧ ',' ∉ (String.intercalate "," actions).toList := by
    simp [challengeScope]
  have hrealm : ',' ∉ (baseUrl ++ "/v2/token").toList ↔ ',' ∉ baseUrl.toList := by
    simp
  have hlast : ∀ action : String, (challengeScope repositoryScope [action]).toList.getLast? ≠
      some '"' ↔ action.toList.getLast? ≠ some '"' := by
    intro action
    rw [challengeScope, String.intercalate_singleton, String.toList_append]
    by_cases hnil : action.toList = []
    · rw [hnil, List.append_nil, String.toList_append,
        List.getLast?_append_of_ne_nil _ (by decide)]
      decide
    · rw [List.getLast?_append_of_ne_nil _ hnil]
  constructor
  · intro h
    obtain ⟨hr, hs, hc⟩ := clean_of_parseBearerChallenge h
    obtain ⟨hrs, has⟩ := hcomma.mp (hc _ rfl).1
    obtain ⟨action, rfl, haction⟩ := (comma_notMem_intercalate_iff hne).mp has
    exact ⟨hrealm.mp (hr _ rfl).1, (hs _ rfl).1, hrs, action, rfl, haction,
      (hlast action).mp (hc _ rfl).2⟩
  · rintro ⟨hb, hs, hrs, action, rfl, haction, hquote⟩
    have hjoin := (comma_notMem_intercalate_iff hne).mpr ⟨action, rfl, haction⟩
    have hends : ∀ {s : List Char}, '"' ∉ s → trimMatches '"' s = s := by
      intro s hs
      exact trimMatches_eq_self (fun h => hs (List.mem_of_head? h))
        fun h => hs (List.mem_of_getLast? h)
    have hscopeEnds : trimMatches '"' (challengeScope repositoryScope [action]).toList =
        (challengeScope repositoryScope [action]).toList := by
      refine trimMatches_eq_self ?_ ((hlast action).mpr hquote)
      simp [challengeScope]
    have hbaseEnds : '"' ∉ (baseUrl ++ "/v2/token").toList := by simp [hbase]
    rw [parseBearerChallenge_of_notMem (hrealm.mpr hb) hs (hcomma.mpr ⟨hrs, hjoin⟩),
      hends hbaseEnds, hends hservice, hscopeEnds, String.ofList_toList, String.ofList_toList,
      String.ofList_toList]

/-- A challenge for one action. -/
theorem parseBearerChallenge_build_pull :
    parseBearerChallenge (buildDockerBearerChallenge "https://r" "r" "main/images" ["pull"]) =
      some ⟨"https://r" ++ "/v2/token", some "r", some (challengeScope "main/images" ["pull"])⟩ :=
  (parseBearerChallenge_build_iff (by decide) (by decide) (by decide)).mpr
    ⟨by decide, by decide, by decide, "pull", rfl, by decide, by decide⟩

/-- A challenge for two actions is cut between them, and what follows has no key. -/
theorem not_parseBearerChallenge_build_push :
    ¬ ∀ (baseUrl service repositoryScope : String) (actions : List String),
      '"' ∉ baseUrl.toList → '"' ∉ service.toList → '"' ∉ repositoryScope.toList →
      actions ≠ [] →
      ∃ challenge, parseBearerChallenge
          (buildDockerBearerChallenge baseUrl service repositoryScope actions) = some challenge ∧
        challenge.realm = baseUrl ++ "/v2/token" ∧ challenge.service = some service ∧
        challenge.scope = some (challengeScope repositoryScope actions) := by
  intro hall
  obtain ⟨challenge, hparse, -⟩ := hall "https://r" "r" "main/images" ["pull", "push"]
    (by decide) (by decide) (by decide) (by decide)
  have hnone : parseBearerChallenge (buildDockerBearerChallenge "https://r" "r" "main/images"
      ["pull", "push"]) = none := by decide
  rw [hnone] at hparse
  cases hparse

end Pkgly.Docker
