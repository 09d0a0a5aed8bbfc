import Pkgly.Algorithm.FileTree

/-!
# System calls on file trees

The calls of an operating system that change a file tree, each one returning the changed tree or
its error: `mkdir`, `createDirAll`, `editFile`, `openOrCreate`, `createNew`, `removeFile`,
`removeDirAll` and `rename`.  For each one there is a lemma that says which entries it leaves alone.

`replaceFile` is the usual way to write a file at once, through a temporary name beside it;
`replaceFile_spec` says exactly what it answers and leaves behind.
-/

namespace Pkgly.FileTree

variable {ν β τ : Type*} [DecidableEq ν]

/-! ### The system calls -/

def mkdir (t : FileTree ν β τ) (path : List ν) (time : τ) : Except IoError (FileTree ν β τ) :=
  if t.pathExists path then .error .alreadyExists
  else if hp : t.isDir path.dropLast = true then
    .ok ((t.insert path (.directoryAt time) hp fun _ => Entry.isDir_directoryAt time).touch
      path.dropLast time)
  else .error (t.missing path.dropLast)

/-- `create_dir_all` of `path ++ rest`, whose part `path` is already there. -/
def createDirAll (t : FileTree ν β τ) (time : τ) :
    List ν → List ν → Except IoError (FileTree ν β τ)
  | _, [] => .ok t
  | path, name :: rest =>
    if t.isDir (path ++ [name]) then createDirAll t time (path ++ [name]) rest
    else
      match t.mkdir (path ++ [name]) time with
      | .ok t' => createDirAll t' time (path ++ [name]) rest
      | .error e => .error e

/-- Open the file at `path`, made if it is missing, and change its content by `f`. -/
def editFile (t : FileTree ν β τ) (path : List ν) (f : Option β → β) (time : τ) :
    Except IoError (FileTree ν β τ) :=
  if hd : t.isDir path = true then .error .isADirectory
  else if hp : t.isDir path.dropLast = true then
    match t.get path with
    | some e => .ok (t.insert path { e with node := .file (f e.content), modified := time } hp
        fun h => absurd h hd)
    | none => .ok ((t.insert path ⟨.file (f none), time, time⟩ hp fun h => absurd h hd).touch
        path.dropLast time)
  else .error (t.missing path.dropLast)

/-- Open the file at `path`, made with `content` if it is missing. -/
def openOrCreate (t : FileTree ν β τ) (path : List ν) (content : β) (time : τ) :
    Except IoError (FileTree ν β τ) :=
  if t.isFile path then .ok t else t.editFile path (fun _ => content) time

/-- Make the file at `path`, which must not be there. -/
def createNew (t : FileTree ν β τ) (path : List ν) (content : β) (time : τ) :
    Except IoError (FileTree ν β τ) :=
  if t.pathExists path then .error .alreadyExists else t.editFile path (fun _ => content) time

def removeFile (t : FileTree ν β τ) (path : List ν) (time : τ) :
    Except IoError (FileTree ν β τ) :=
  if hpath : path = [] then .error .isADirectory
  else
    match t.get path with
    | none => .error (t.missing path)
    | some e =>
      if e.isDir then .error .isADirectory
      else .ok ((t.remove path hpath).touch path.dropLast time)

def removeDirAll (t : FileTree ν β τ) (path : List ν) (time : τ) :
    Except IoError (FileTree ν β τ) :=
  if hpath : path = [] then .error .invalidInput
  else
    match t.get path with
    | none => .error (t.missing path)
    | some e =>
      if e.isDir then .ok ((t.remove path hpath).touch path.dropLast time)
      else .error .notADirectory

/-- What `rename` says of moving the entry `e` onto what is at `target`. -/
def renameOnto (t : FileTree ν β τ) (e : Entry β τ) (target : List ν) : Except IoError Unit :=
  match t.get target with
  | none => .ok ()
  | some d =>
    if e.isDir then
      if !d.isDir then .error .notADirectory
      else if (t.children target).isEmpty then .ok ()
      else .error .directoryNotEmpty
    else if d.isDir then .error .isADirectory else .ok ()

/-- `rename`: what is at `target` is replaced, a directory only when it is empty. -/
def rename (t : FileTree ν β τ) (source target : List ν) (time : τ) :
    Except IoError (FileTree ν β τ) :=
  match t.get source with
  | none => .error (t.missing source)
  | some e =>
    if source = target then .ok t
    else if hts : source <+: target ∨ target <+: source then
      if source <+: target then .error .invalidInput else .error .directoryNotEmpty
    else if hp : t.isDir target.dropLast = true then
      match t.renameOnto e target with
      | .ok () => .ok (((t.moveTree source target (not_or.mp hts) hp).touch source.dropLast
          time).touch target.dropLast time)
      | .error err => .error err
    else .error (t.missing target.dropLast)

/-! ### What the calls leave alone -/

/-- A call that makes, changes or removes the one file at `path`. -/
structure Edits (path : List ν) (t t' : FileTree ν β τ) : Prop where
  get_eq : ∀ x, x ≠ path → x ≠ path.dropLast → t'.get x = t.get x
  isDir_eq : ∀ x, t'.isDir x = t.isDir x
  isFile_eq : ∀ x, x ≠ path → t'.isFile x = t.isFile x

variable {t t' : FileTree ν β τ} {x path : List ν} {time : τ}

theorem isFile_of_get_eq (h : t'.get x = t.get x) : t'.isFile x = t.isFile x := by
  rw [isFile, isFile, h]

theorem editFile_edits {f : Option β → β}
    (h : t.editFile path f time = .ok t') : Edits path t t' := by
  unfold editFile at h
  split_ifs at h with hd hp
  have hd' : t.isDir path = false := Bool.eq_false_iff.mpr hd
  split at h
  · next e he =>
    obtain rfl := Except.ok.inj h
    refine ⟨fun x hx _ => ?_, fun x => ?_, fun x hx => ?_⟩
    · rw [get_insert, if_neg hx]
    · rw [isDir_insert]
      split_ifs with hx
      · rw [hx, hd']
        rfl
      · rfl
    · exact isFile_of_get_eq (by rw [get_insert, if_neg hx])
  · next he =>
    obtain rfl := Except.ok.inj h
    refine ⟨fun x hx hx' => ?_, fun x => ?_, fun x hx => ?_⟩
    · rw [get_touch, if_neg hx', get_insert, if_neg hx]
    · rw [isDir_touch, isDir_insert]
      split_ifs with hx
      · rw [hx, hd']
        rfl
      · rfl
    · rw [isFile_touch]
      exact isFile_of_get_eq (by rw [get_insert, if_neg hx])

theorem Edits.refl (path : List ν) (t : FileTree ν β τ) : Edits path t t :=
  ⟨fun _ _ _ => rfl, fun _ => rfl, fun _ _ => rfl⟩

theorem openOrCreate_edits {content : β}
    (h : t.openOrCreate path content time = .ok t') : Edits path t t' := by
  unfold openOrCreate at h
  split_ifs at h
  · obtain rfl := Except.ok.inj h
    exact Edits.refl path t
  · exact editFile_edits h

theorem get_remove_touch {hpath : path ≠ []} (hx : ¬ path <+: x) (hx' : x ≠ path.dropLast) :
    ((t.remove path hpath).touch path.dropLast time).get x = t.get x := by
  rw [get_touch, if_neg hx', get_remove, if_neg hx]

theorem removeFile_edits (h : t.removeFile path time = .ok t') : Edits path t t' := by
  unfold removeFile at h
  split_ifs at h with hpath
  split at h
  · cases h
  · next e he =>
    split_ifs at h with hd
    obtain rfl := Except.ok.inj h
    have hfile : t.isDir path = false := by
      rw [isDir_of_get he]
      exact Bool.eq_false_iff.mpr hd
    -- a file has nothing below it
    have hget : ∀ x, x ≠ path → (t.remove path hpath).get x = t.get x := by
      intro x hx
      rw [get_remove]
      split_ifs with hpre
      · exact (get_below_eq_none hfile hpre (Ne.symm hx)).symm
      · rfl
    refine ⟨fun x hx hx' => ?_, fun x => ?_, fun x hx => ?_⟩
    · rw [get_touch, if_neg hx', hget x hx]
    · rw [isDir_touch]
      by_cases hx : x = path
      · rw [hx, hfile, isDir, get_remove, if_pos (List.prefix_refl _)]
        rfl
      · rw [isDir, isDir, hget x hx]
    · rw [isFile_touch]
      exact isFile_of_get_eq (hget x hx)

theorem removeDirAll_get (h : t.removeDirAll path time = .ok t') :
    (∀ x, ¬ path <+: x → x ≠ path.dropLast → t'.get x = t.get x) ∧
      ∀ x, t'.isFile x = true → t.isFile x = true := by
  unfold removeDirAll at h
  split_ifs at h with hpath
  split at h
  · cases h
  · split_ifs at h
    obtain rfl := Except.ok.inj h
    grind [get_remove_touch, isFile_touch, isFile, get_remove]

theorem createDirAll_get {rest : List ν} (h : t.createDirAll time path rest = .ok t') :
    (∀ x, ¬ x <+: path ++ rest → t'.get x = t.get x) ∧ ∀ x, t'.isFile x = t.isFile x := by
  induction rest generalizing t path with
  | nil =>
    obtain rfl := Except.ok.inj h
    exact ⟨fun x _ => rfl, fun x => rfl⟩
  | cons name rest ih =>
    have happ : path ++ name :: rest = path ++ [name] ++ rest := by simp
    rw [happ]
    rw [createDirAll] at h
    split_ifs at h with hd
    · exact ih h
    · split at h
      · next t1 hmk =>
        obtain ⟨hget, hfile⟩ := ih h
        unfold mkdir at hmk
        split_ifs at hmk with hex hp
        obtain rfl := Except.ok.inj hmk
        have hold : t.get (path ++ [name]) = none := by
          rw [pathExists, Bool.not_eq_true, Option.isSome_eq_false_iff, Option.isNone_iff_eq_none]
            at hex
          exact hex
        refine ⟨fun x hx => ?_, fun x => ?_⟩
        · have hself : x ≠ path ++ [name] := fun heq =>
            hx (heq ▸ List.prefix_append _ rest)
          have hup : x ≠ (path ++ [name]).dropLast := fun heq =>
            hx (heq ▸ (List.dropLast_prefix _).trans (List.prefix_append _ rest))
          rw [hget x hx, get_touch, if_neg hup, get_insert, if_neg hself]
        · rw [hfile, isFile_touch]
          by_cases hself : x = path ++ [name]
          · rw [hself, isFile, isFile, get_insert, if_pos rfl, hold]
            rfl
          · exact isFile_of_get_eq (by rw [get_insert, if_neg hself])
      · cases h

theorem rename_get {source target : List ν} (h : t.rename source target time = .ok t') :
    (∀ x, ¬ source <+: x → ¬ target <+: x → x ≠ source.dropLast → x ≠ target.dropLast →
      t'.get x = t.get x) ∧
      ∀ x, t'.isFile x = true → t.isFile x = true ∨ target <+: x := by
  unfold rename at h
  split at h
  · cases h
  · split_ifs at h with heq hts hst hp
    · obtain rfl := Except.ok.inj h
      exact ⟨fun x _ _ _ _ => rfl, fun x hx => .inl hx⟩
    · split at h
      · obtain rfl := Except.ok.inj h
        refine ⟨fun x h1 h2 h3 h4 => ?_, fun x hx => ?_⟩
        · rw [get_touch, if_neg h4, get_touch, if_neg h3, get_moveTree, if_neg h2, if_neg h1]
        grind [isFile_touch, isFile, get_moveTree]
      · cases h

theorem not_prefix_of_rename {source target : List ν}
    (h : t.rename source target time = .ok t') (hne : source ≠ target) : ¬ source <+: target := by
  intro hpre
  unfold rename at h
  split at h
  · cases h
  · rw [if_neg hne, dif_pos (.inl hpre), if_pos hpre] at h
    cases h

/-! ### Writing a file through a temporary name

The content is written to a new file beside the target, which then replaces the target; what is left
of a failed attempt is removed.  Whatever happens, the temporary name is as it was. -/

/-- Write `content` at `path` by way of `tmp`. -/
def replaceFile (t : FileTree ν β τ) (tmp path : List ν) (content : β) (time : τ) :
    Except IoError Unit × FileTree ν β τ :=
  match t.createNew tmp content time with
  | .error e => (.error e, t)
  | .ok t1 =>
    match t1.rename tmp path time with
    | .ok t2 => (.ok (), t2)
    | .error e =>
      match t1.removeFile tmp time with
      | .ok t2 => (.error e, t2)
      | .error _ => (.error e, t1)

def replaceOutcome (t : FileTree ν β τ) (tmp path : List ν) : Except IoError Unit :=
  if t.pathExists tmp then .error .alreadyExists
  else if t.isDir path.dropLast = true then
    if t.isDir path then .error .isADirectory else .ok ()
  else .error (t.missing path.dropLast)

/-- The entry at `x` after `replaceFile`. -/
def replaceEntry (t : FileTree ν β τ) (tmp path : List ν) (content : β) (time : τ) (x : List ν) :
    Option (Entry β τ) :=
  if t.pathExists tmp = true ∨ t.isDir path.dropLast = false then t.get x
  else if x = path.dropLast then (t.get x).map (Entry.changedAt · time)
  else if x = path ∧ t.isDir path = false then some ⟨.file content, time, time⟩
  else t.get x

omit [DecidableEq ν] in
/-- Two different names in one directory are not comparable. -/
theorem not_prefix_of_dropLast_eq {y : List ν} (hne : x ≠ y) (hdir : x.dropLast = y.dropLast)
    (hx : x ≠ []) (hy : y ≠ []) : ¬ x <+: y := by
  intro hpre
  refine hne (hpre.eq_of_length ?_)
  have hlen := congrArg List.length hdir
  rw [List.length_dropLast, List.length_dropLast] at hlen
  have h1 := List.length_pos_iff.mpr hx
  have h2 := List.length_pos_iff.mpr hy
  omega

omit [DecidableEq ν] in
theorem ne_dropLast (hx : x ≠ []) : x ≠ x.dropLast := by
  intro h
  have hlen := congrArg List.length h
  rw [List.length_dropLast] at hlen
  have hpos := List.length_pos_iff.mpr hx
  omega

theorem get_of_not_pathExists (h : t.pathExists path = false) : t.get path = none := by
  rwa [pathExists, Option.isSome_eq_false_iff, Option.isNone_iff_eq_none] at h

theorem isDir_of_not_pathExists (h : t.pathExists path = false) : t.isDir path = false := by
  rw [isDir, get_of_not_pathExists h]
  rfl

theorem createNew_ok (content : β) (time : τ)
    (hpath : path ≠ []) (hnew : t.pathExists path = false) (hp : t.isDir path.dropLast = true) :
    ∃ t', t.createNew path content time = .ok t' ∧ ∀ x, t'.get x =
      if x = path.dropLast then (t.get x).map (Entry.changedAt · time)
      else if x = path then some ⟨.file content, time, time⟩ else t.get x := by
  have hd := isDir_of_not_pathExists hnew
  have hget := get_of_not_pathExists hnew
  have hcall : t.createNew path content time =
      .ok ((t.insert path ⟨.file content, time, time⟩ hp fun h => absurd h (by simp [hd])).touch
        path.dropLast time) := by simp [createNew, editFile, hnew, hd, hp, hget]
  grind [get_touch, get_insert, absurd, ne_dropLast]

/-- Without a directory to make the file in, nothing happens. -/
theorem createNew_error (content : β) (time : τ)
    (hnew : t.pathExists path = false) (hp : t.isDir path.dropLast = false) :
    t.createNew path content time = .error (t.missing path.dropLast) := by
  simp [isDir_of_not_pathExists, createNew, editFile, hnew, hp]

section Rename

variable {t : FileTree ν β τ} {source target : List ν} {e : Entry β τ} (time : τ)

/-- `rename` of a file onto a name in the same directory that is no directory. -/
theorem rename_file_ok (hsource : t.get source = some e) (hfile : e.isDir = false)
    (hne : source ≠ target) (hdir : source.dropLast = target.dropLast) (hs : source ≠ [])
    (ht : target ≠ []) (htarget : t.isDir target = false) :
    ∃ t', t.rename source target time = .ok t' ∧ ∀ x, t'.get x =
      if x = target.dropLast then (t.get x).map (Entry.changedAt · time)
      else if x = target then some e else if x = source then none else t.get x := by
  have hst := not_prefix_of_dropLast_eq hne hdir hs ht
  have hts := not_prefix_of_dropLast_eq (Ne.symm hne) hdir.symm ht hs
  have hp : t.isDir target.dropLast = true := by
    rw [← hdir]
    exact t.isDir_dropLast (pathExists_of_get hsource)
  have honto : t.renameOnto e target = .ok () := by grind [renameOnto, isDir_of_get]
  have hcall : t.rename source target time = .ok (((t.moveTree source target ⟨hst, hts⟩ hp).touch
      source.dropLast time).touch target.dropLast time) := by
    unfold rename
    rw [hsource]
    simp only [if_neg hne, dif_neg (not_or.mpr ⟨hst, hts⟩), dif_pos hp, honto]
  refine ⟨_, hcall, fun x => ?_⟩
  have hsd : t.isDir source = false := by rw [isDir_of_get hsource, hfile]
  -- apart from the two names, nothing moves: there is nothing below them
  have hmove : (t.moveTree source target ⟨hst, hts⟩ hp).get x =
      if x = target then some e else if x = source then none else t.get x := by
    rw [get_moveTree]
    by_cases hxt : x = target
    · rw [hxt, if_pos (List.prefix_refl _), if_pos rfl, List.drop_length, List.append_nil, hsource]
    · rw [if_neg hxt]
      by_cases hxs : x = source
      · rw [hxs, if_neg hts, if_pos (List.prefix_refl _), if_pos rfl]
      · rw [if_neg hxs]
        split_ifs with h1 h2
        · obtain ⟨rest, rfl⟩ := h1
          have hrest : rest ≠ [] := fun h => hxt (by rw [h, List.append_nil])
          rw [List.drop_left, get_below_eq_none htarget (List.prefix_append _ _) (Ne.symm hxt)]
          refine get_below_eq_none hsd (List.prefix_append _ _) fun h => hrest ?_
          exact List.append_right_eq_self.mp h.symm
        · exact (get_below_eq_none hsd h2 (Ne.symm hxs)).symm
        · rfl
  rw [get_touch, get_touch, hmove, hdir]
  split_ifs with h1 h2 h3
  · exact absurd (h2.symm.trans h1) (ne_dropLast ht)
  · exact absurd (h3.symm.trans (h1.trans hdir.symm)) (ne_dropLast hs)
  · cases t.get x <;> rfl
  · rfl
  · rfl
  · rfl

theorem rename_file_error (hsource : t.get source = some e) (hfile : e.isDir = false)
    (hne : source ≠ target) (hdir : source.dropLast = target.dropLast) (hs : source ≠ [])
    (ht : target ≠ []) (htarget : t.isDir target = true) :
    t.rename source target time = .error .isADirectory := by
  have hst := not_prefix_of_dropLast_eq hne hdir hs ht
  have hts := not_prefix_of_dropLast_eq (Ne.symm hne) hdir.symm ht hs
  have hp : t.isDir target.dropLast = true := by
    rw [← hdir]
    exact t.isDir_dropLast (pathExists_of_get hsource)
  have honto : t.renameOnto e target = .error .isADirectory := by
    obtain ⟨d, hd, hdd⟩ := (Option.any_eq_true _ _).mp htarget
    unfold renameOnto
    rw [show t.get target = some d from hd]
    simp [hfile, hdd]
  simp_all [rename]

end Rename

/-- `remove_file` of a file. -/
theorem removeFile_ok {e : Entry β τ} (time : τ)
    (hpath : path ≠ []) (hget : t.get path = some e) (hfile : e.isDir = false) :
    ∃ t', t.removeFile path time = .ok t' ∧ ∀ x, t'.get x =
      if x = path.dropLast then (t.get x).map (Entry.changedAt · time)
      else if x = path then none else t.get x := by
  have hcall : t.removeFile path time = .ok ((t.remove path hpath).touch path.dropLast time) := by
    unfold removeFile
    rw [dif_neg hpath, hget]
    simp [hfile]
  have hd : t.isDir path = false := by rw [isDir_of_get hget, hfile]
  refine ⟨_, hcall, fun x => ?_⟩
  have hgone : (t.remove path hpath).get x = if x = path then none else t.get x := by
    rw [get_remove]
    split_ifs with h1 h2 h2
    · rfl
    · exact (get_below_eq_none hd h1 (Ne.symm h2)).symm
    · exact absurd (h2 ▸ List.prefix_refl _) h1
    · rfl
  grind [get_touch, absurd, ne_dropLast]

/-- What `replaceFile` answers and what it leaves behind. -/
theorem replaceFile_spec (t : FileTree ν β τ) {tmp : List ν} (content : β) (time : τ)
    (hne : tmp ≠ path) (hdir : tmp.dropLast = path.dropLast) (htmp : tmp ≠ []) (hpath : path ≠ []) :
    (t.replaceFile tmp path content time).1 = t.replaceOutcome tmp path ∧
      ∀ x, (t.replaceFile tmp path content time).2.get x =
        t.replaceEntry tmp path content time x := by
  unfold replaceFile replaceOutcome replaceEntry
  by_cases hnew : t.pathExists tmp = true
  · simp_all [createNew]
  · rw [Bool.not_eq_true] at hnew
    by_cases hp : t.isDir path.dropLast = true
    · obtain ⟨t1, hcall, hget⟩ := createNew_ok content time htmp hnew
        (hdir ▸ hp)
      rw [hdir] at hget
      have htmp1 : t1.get tmp = some ⟨.file content, time, time⟩ := by
        rw [hget, if_neg (hdir ▸ ne_dropLast htmp), if_pos rfl]
      have hpath1 : t1.get path = t.get path := by
        rw [hget, if_neg (ne_dropLast hpath), if_neg (Ne.symm hne)]
      have hd1 : t1.isDir path = t.isDir path := by rw [isDir, isDir, hpath1]
      have hold : t.get tmp = none := get_of_not_pathExists hnew
      by_cases hd : t.isDir path = true
      · -- the rename fails, and the temporary file goes
        have hren := rename_file_error time htmp1 rfl hne hdir htmp hpath (hd1.trans hd)
        obtain ⟨t2, hrm, hget2⟩ := removeFile_ok time htmp htmp1 rfl
        simp only [hcall, hren, hrm, hnew, hp, hd]
        refine ⟨by simp, fun x => ?_⟩
        rw [hget2, hdir, hget]
        by_cases hx : x = path.dropLast
        · simp only [hx, if_true]
          cases t.get path.dropLast <;> simp [Entry.changedAt]
        grind
      · rw [Bool.not_eq_true] at hd
        obtain ⟨t2, hren, hget2⟩ := rename_file_ok time htmp1 rfl hne hdir htmp hpath
          (hd1.trans hd)
        simp only [hcall, hren, hnew, hp, hd]
        refine ⟨by simp, fun x => ?_⟩
        rw [hget2, hget]
        by_cases hx : x = path.dropLast
        · simp only [hx, if_true]
          cases t.get path.dropLast <;> simp [Entry.changedAt]
        grind
    simp_all [Bool.not_eq_true, createNew_error]

/-- Whether it succeeds or not, `replaceFile` touches nothing but the target and its parent. -/
theorem replaceFile_edits {tmp : List ν} (content : β) (time : τ)
    (hne : tmp ≠ path) (hdir : tmp.dropLast = path.dropLast) (htmp : tmp ≠ [])
    (hpath : path ≠ []) : Edits path t (t.replaceFile tmp path content time).2 := by
  have hget := (replaceFile_spec t content time hne hdir htmp hpath).2
  refine ⟨fun x h1 h2 => ?_, fun x => ?_, fun x h1 => ?_⟩
  · rw [hget, replaceEntry]
    split_ifs with h3 h4
    · rfl
    · exact absurd h4.1 h1
    · rfl
  · rw [isDir, isDir, hget, replaceEntry]
    split_ifs with h3 h4 h5
    · rfl
    · cases t.get x <;> rfl
    · -- the target was no directory, and is none
      have hd : t.isDir x = false := h5.1 ▸ h5.2
      rw [isDir] at hd
      rw [hd]
      rfl
    · rfl
  · rw [isFile, isFile, hget, replaceEntry]
    split_ifs with h3 h4 h5
    · rfl
    · cases t.get x <;> rfl
    · exact absurd h5.1 h1
    · rfl

theorem pathExists_replaceFile {tmp : List ν} (content : β) (time : τ)
    (hne : tmp ≠ path) (hdir : tmp.dropLast = path.dropLast) (htmp : tmp ≠ [])
    (hpath : path ≠ []) (hx : t.pathExists x = true) :
    (t.replaceFile tmp path content time).2.pathExists x = true := by
  grind [pathExists, replaceFile_spec, replaceEntry, Option.isSome_map]

end Pkgly.FileTree
