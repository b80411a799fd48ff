import ClientSdk.Proofs.Ledger.Closing
import ClientSdk.Proofs.Ledger.Collision
import ClientSdk.Proofs.Ledger.Writing

/-!
# Registering a batch and writing its block

A file registers all that it wants and then writes its import block.  The registering
succeeds if and only if the batch does not collide (`registerAll_of_not_collides`,
`registerAll_of_collides`), and then the writing succeeds if and only if every name is a
text (`toScript_after`).  Neither depends on the order of the batch, and neither does
the block.
-/

namespace ClientSdk

namespace Ledger

variable {l : Ledger} {rs : List Registration} {here : WorkingDirectory} {file : String}

/-! ## Registering -/

theorem after_batch_cons (l : Ledger) (r : Registration) (rs : List Registration) :
    l.after ((r :: rs).map .register) = (l.register r).2.after (rs.map .register) := rfl

theorem registerAll_of_not_collides (hopen : l.closed = false) (h : ¬ l.Collides rs) :
    l.registerAll rs = (.ok (), l.after (rs.map .register)) := by
  induction rs generalizing l with
  | nil => rfl
  | cons r rs ih =>
      rw [collides_cons, not_or] at h
      obtain ⟨hfirst, hrest⟩ := h
      have hcases := l.registers r
      rw [registerAll, after_batch_cons]
      have hnext := ih (l := (l.register r).2) (by rwa [closed_register]) hrest
      cases hanswer : l.register r with
      | mk result l' =>
          rw [hanswer] at hcases hfirst hnext
          cases hcases with
          | skipped _ => exact hnext
          | shut _ hclosed => exact absurd (hclosed.symm.trans hopen) (by decide)
          | foreign _ _ _ _ => exact absurd ⟨_, rfl, _, _, _, _, rfl⟩ hfirst
          | secondDefault _ _ _ _ _ => exact absurd ⟨_, rfl, _, _, _, _, rfl⟩ hfirst
          | entered _ _ _ _ => exact hnext

theorem registerAll_of_collides (hopen : l.closed = false) (h : l.Collides rs) :
    ∃ fault, fault.IsCollision ∧ (l.registerAll rs).1 = .error fault := by
  induction rs generalizing l with
  | nil =>
      obtain ⟨answer, hmem, -⟩ := h
      exact absurd hmem List.not_mem_nil
  | cons r rs ih =>
      have hcases := l.registers r
      rw [collides_cons] at h
      rw [registerAll]
      have hnext : (l.register r).2.Collides rs →
          ∃ fault, fault.IsCollision ∧ ((l.register r).2.registerAll rs).1 = .error fault :=
        ih (by rwa [closed_register])
      cases hanswer : l.register r with
      | mk result l' =>
          rw [hanswer] at hcases h hnext
          have hlater : result = .ok () → ∃ fault, fault.IsCollision ∧
              (l'.registerAll rs).1 = .error fault := by
            rintro rfl
            rcases h with ⟨fault, hfault, -⟩ | hrest
            · exact nomatch hfault
            · exact hnext hrest
          cases hcases with
          | skipped _ => exact hlater rfl
          | shut _ hclosed => exact absurd (hclosed.symm.trans hopen) (by decide)
          | foreign _ _ _ _ => exact ⟨_, ⟨_, _, _, _, rfl⟩, rfl⟩
          | secondDefault _ _ _ _ _ => exact ⟨_, ⟨_, _, _, _, rfl⟩, rfl⟩
          | entered _ _ _ _ => exact hlater rfl

/-- After a batch that does not collide, the ledger is open and holds what was wanted. -/
theorem records_of_not_collides (h : ¬ (forFile here file).Collides rs) :
    ((forFile here file).after (rs.map .register)).Records ((forFile here file).wanted rs) := by
  rw [← granted_of_not_collides rfl h]
  exact records_after here file _

/-- A batch leaves the ledger open. -/
theorem open_after_batch (file : String) (rs : List Registration) :
    ((forFile here file).after (rs.map .register)).closed = false := by
  refine forFile_open_after.mpr fun q hq => ?_
  obtain ⟨r, -, rfl⟩ := List.mem_map.mp hq
  simp [LedgerRequest.Ends]

/-! ## Writing -/

theorem toScript_of_open (h : l.closed = false) :
    l.toScript.1 = l.statements.map fun (libraries, files) => blockText libraries files := by
  rw [toScript, h]
  rfl

/-- A block that is written is the text of the statements. -/
theorem statements_of_toScript (h : l.closed = false) {text : String}
    (htext : l.toScript.1 = .ok text) :
    ∃ libraries files, l.statements = .ok (libraries, files) ∧
      text = blockText libraries files := by
  rw [toScript_of_open h] at htext
  cases hstatements : l.statements with
  | error fault =>
      rw [hstatements] at htext
      exact nomatch htext
  | ok parts =>
      rw [hstatements] at htext
      exact ⟨parts.1, parts.2, rfl, (Except.ok.inj htext).symm⟩

theorem mapM_text?_eq_none {keys : List Scalar.Key} {key : Scalar.Key} (hkey : key ∈ keys)
    (h : key.text? = none) : keys.mapM Scalar.Key.text? = none := by
  induction keys with
  | nil => exact absurd hkey List.not_mem_nil
  | cons key' keys ih =>
      rw [List.mapM_cons]
      rcases List.mem_cons.mp hkey with rfl | hkey
      · rw [h]
        rfl
      · rw [ih hkey]
        cases key'.text? <;> rfl

theorem text?_key_eq_none {r : Registration} (h : ¬ r.IsText) : r.key.text? = none := by
  cases hkey : r.key.text? with
  | none => rfl
  | some name =>
      refine absurd ⟨name, Scalar.eq_text_of_key ?_⟩ h
      change r.key = .text name
      cases hk : r.key <;> simp_all [Scalar.Key.text?]

theorem statements_of_not_text {s : Supply} (h : s.Meets rs) {r : Registration}
    (hr : r ∈ rs) (hdef : r.isDefault = false) (htext : ¬ r.IsText) (source : String) :
    ∃ fault, s.statements source = .error fault := by
  obtain ⟨flag, hflag⟩ : ∃ flag, Table.get? s.names r.key = some flag := by
    rw [← Option.ne_none_iff_exists', h.names]
    exact fun hnone => Registration.demand_eq_none_iff.mp hnone r hr ⟨hdef, rfl⟩
  have hkey : r.key ∈ (s.names.filter fun p => p.2 == flag).map Prod.fst :=
    List.mem_map.mpr ⟨_, List.mem_filter.mpr ⟨Table.mem_of_get? hflag, by simp⟩, rfl⟩
  have hnamed : s.namedStatement source flag = .error wrongKind := by
    rw [Supply.namedStatement, Supply.namesOf, mapM_text?_eq_none hkey (text?_key_eq_none htext)]
    rfl
  unfold Supply.statements
  cases flag with
  | false =>
      rw [hnamed]
      exact ⟨_, rfl⟩
  | true =>
      rw [hnamed]
      cases s.namedStatement source false with
      | error fault => exact ⟨fault, rfl⟩
      | ok values => exact ⟨_, rfl⟩

theorem blockOf_of_error {t : Table Supply} {source : String} {s : Supply} {fault : Fault}
    (hentry : (source, s) ∈ t) (h : s.statements source = .error fault) :
    ∃ fault, blockOf t = .error fault := by
  obtain ⟨fault, hall⟩ := Except.exists_error_of_mem
    (g := fun e : String × Supply => e.2.statements e.1)
    ((Table.sorted_perm t).mem_iff.mpr hentry) h
  refine ⟨fault, ?_⟩
  change List.flatten <$> (Table.sorted t).mapM _ = _
  rw [hall]
  rfl

theorem Records.statements_of_not_text (h : l.Records rs) (hname : Nameable l.here l.file rs)
    {r : Registration} (hr : r ∈ rs) (hdef : r.isDefault = false) (htext : ¬ r.IsText) :
    ∃ fault, l.statements = .error fault := by
  have hfrom : r ∈ rs.filter fun r' => decide (r'.origin = r.origin) :=
    List.mem_filter.mpr ⟨hr, by simp⟩
  unfold Ledger.statements
  cases horigin : r.origin with
  | library name =>
      rw [horigin] at hfrom
      obtain ⟨s, hentry⟩ := Table.mem_keys_iff.mp ((h.libraries.mem_keys name).mpr ⟨r, hr, horigin⟩)
      obtain ⟨fault, hs⟩ :=
        Ledger.statements_of_not_text (h.libraries.meets_of_mem hentry) hfrom hdef htext name
      obtain ⟨fault', hblock⟩ := blockOf_of_error hentry hs
      rw [hblock]
      exact ⟨fault', rfl⟩
  | file target =>
      rw [horigin] at hfrom
      obtain ⟨s, hentry⟩ := Table.mem_keys_iff.mp ((h.files.mem_keys target).mpr ⟨r, hr, horigin⟩)
      obtain ⟨fault, hs⟩ := Ledger.statements_of_not_text (h.files.meets_of_mem hentry) hfrom hdef
        htext (Path.specifier l.here l.file target)
      have hlisted : (Path.specifier l.here l.file target, s) ∈ l.listed :=
        List.mem_map.mpr ⟨_, hentry, rfl⟩
      obtain ⟨fault', hblock⟩ := blockOf_of_error hlisted hs
      rw [h.bySpecifier_eq hname]
      cases blockOf l.libraries with
      | error fault => exact ⟨fault, rfl⟩
      | ok libraries =>
          refine ⟨fault', ?_⟩
          change (blockOf l.listed >>= fun files => pure (libraries, files)) = _
          rw [hblock]
          rfl

/-- After a batch that does not collide, the import block is written if all names are
texts, and it is that of the set of what was wanted. -/
theorem toScript_after (h : ¬ (forFile here file).Collides rs)
    (hname : Nameable here (Path.clean file) ((forFile here file).wanted rs))
    (hdefault : ∀ r ∈ rs, r.isDefault = true → r.IsText) :
    let l := (forFile here file).after (rs.map .register)
    let wanted := (forFile here file).wanted rs
    ((∀ r ∈ wanted, r.IsText) →
      l.toScript.1 = .ok (ImportBlock.text here (Path.clean file) wanted.toFinset)) ∧
    ((∃ r ∈ wanted, ¬ r.IsText) → ∃ fault, l.toScript.1 = .error fault) := by
  intro l wanted
  have hrec : l.Records wanted := records_of_not_collides h
  have hopen : l.closed = false := open_after_batch file rs
  have hhere : l.here = here := by rw [here_after, here_forFile]
  have hfile : l.file = Path.clean file := by rw [file_after, file_forFile]
  have hnamed : Nameable l.here l.file wanted := by rwa [hhere, hfile]
  clear_value l
  rw [toScript_of_open hopen]
  constructor
  · intro htext
    rw [hrec.statements_eq htext hnamed, ← ImportBlock.blockText_eq, ← hhere, ← hfile]
    rfl
  · rintro ⟨r, hr, htext⟩
    have hdef : r.isDefault = false := by
      cases hd : r.isDefault with
      | false => rfl
      | true => exact absurd (hdefault r (List.mem_filter.mp hr).1 hd) htext
    obtain ⟨fault, herror⟩ := hrec.statements_of_not_text hnamed hr hdef htext
    rw [herror]
    exact ⟨fault, rfl⟩

end Ledger

end ClientSdk
