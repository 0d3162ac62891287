import Bindery.Proofs.Output.Written
import Bindery.Proofs.Run.Exits

/-!
# What a run writes

From its start to any later moment, a generation has written the files it has listed so far, whether
it ends well or stops. A preview writes nothing.
-/

namespace Bindery.Run
set_option autoImplicit false

open Manual (Entry)
open Output (GeneratedFile Wrote)

/-- From one delivery to a later one, the files that were added to the list were written. -/
def Delivers (delivery after : Delivery) : Prop :=
  ∃ files, after.files = delivery.files ++ files ∧ Wrote delivery.tree files after.tree

namespace Delivers

variable {delivery after final : Delivery}

theorem refl (delivery : Delivery) : Delivers delivery delivery :=
  ⟨[], (List.append_nil _).symm, .refl _⟩

theorem trans (h : Delivers delivery after) (g : Delivers after final) : Delivers delivery final := by
  obtain ⟨files, listed, wrote⟩ := h
  obtain ⟨more, listed', wrote'⟩ := g
  exact ⟨files ++ more, by rw [listed', listed, List.append_assoc], wrote.trans wrote'⟩

theorem grows (h : Delivers delivery after) : delivery.tree.Grows after.tree :=
  let ⟨_, _, wrote⟩ := h
  wrote.grows

theorem subset (h : Delivers delivery after) : delivery.files ⊆ after.files := by
  obtain ⟨files, listed, -⟩ := h
  rw [listed]
  exact List.subset_append_left _ _

theorem wrote {tree : FileTree} (h : Delivers ⟨tree, []⟩ delivery) :
    Wrote tree delivery.files delivery.tree := by
  obtain ⟨files, listed, wrote⟩ := h
  rwa [listed]

end Delivers

section Writing

variable {delivery delivered : Delivery} {file : GeneratedFile} {files : List GeneratedFile}
  {worked : Bool} {job : Job} {progress : Progress}

theorem put_disk (delivery : Delivery) (always : file.rule = .always) :
    delivery.put .disk file =
      match delivery.tree.write file.path (.text file.content) with
      | (tree, true) => (⟨tree, delivery.files ++ [file]⟩, true)
      | (tree, false) => (⟨tree, delivery.files⟩, false) := by
  have rewrites : ¬(decide (file.rule = .once) && delivery.tree.pathExists file.path) = true := by
    simp [always]
  unfold Delivery.put GeneratedFile.write
  simp only [if_neg rewrites]
  rcases delivery.tree.write file.path (.text file.content) with ⟨tree, worked⟩
  cases worked <;> rfl

/-- A file was delivered exactly if it was written. -/
theorem put_disk_eq (always : file.rule = .always)
    (done : delivery.put .disk file = (delivered, worked)) :
    delivery.tree.write file.path (.text file.content) = (delivered.tree, worked) ∧
      delivered.files = delivery.files ++ if worked then [file] else [] := by
  rw [put_disk delivery always] at done
  split at done
  · next tree wrote =>
    cases done
    exact ⟨wrote, rfl⟩
  · next tree wrote =>
    cases done
    exact ⟨wrote, (List.append_nil _).symm⟩

theorem delivers_put (always : file.rule = .always)
    (done : delivery.put .disk file = (delivered, worked)) : Delivers delivery delivered := by
  obtain ⟨wrote, listed⟩ := put_disk_eq always done
  exact ⟨_, listed, .of_write wrote⟩

theorem delivers_putAll (always : ∀ file ∈ files, file.rule = .always)
    (done : delivery.putAll .disk files = (delivered, worked)) : Delivers delivery delivered := by
  induction files generalizing delivery with
  | nil =>
    cases done
    exact .refl _
  | cons file files ih =>
    obtain ⟨first, others⟩ := List.forall_mem_cons.1 always
    unfold Delivery.putAll at done
    split at done
    · next put => exact (delivers_put first put).trans (ih others done)
    · next put =>
      cases done
      exact delivers_put first put

/-- Wherever it goes, a file that was delivered is the last of the list. -/
theorem files_of_put {destination : Destination} (always : file.rule = .always)
    (done : delivery.put destination file = (delivered, true)) :
    delivered.files = delivery.files ++ [file] := by
  cases destination with
  | preview =>
    cases done
    rfl
  | disk => exact (put_disk_eq always done).2

theorem files_of_putAll {destination : Destination} (always : ∀ file ∈ files, file.rule = .always)
    (done : delivery.putAll destination files = (delivered, true)) :
    delivered.files = delivery.files ++ files := by
  induction files generalizing delivery with
  | nil =>
    cases done
    exact (List.append_nil _).symm
  | cons file files ih =>
    obtain ⟨first, others⟩ := List.forall_mem_cons.1 always
    unfold Delivery.putAll at done
    split at done
    · next put =>
      rw [ih others done, files_of_put first put, List.append_assoc]
      rfl
    · cases done

/-- The files of a page are written whatever is there. -/
theorem always_of_step {tree : FileTree} {entry : Entry} {after : Progress}
    (taken : job.step tree progress entry = .ok (after, files)) :
    ∀ file ∈ files, file.rule = .always := by
  obtain ⟨record, -, exit⟩ := Job.exit_of_step taken
  cases exit with
  | noCommand none => simp
  | methodTaken some apart conflict => simp
  | bound some apart free typed =>
    intro file mem
    unfold Job.commandFiles at mem
    rcases List.mem_cons.1 mem with rfl | mem
    · rfl
    · split at mem
      · rw [List.mem_singleton.1 mem]
        rfl
      · cases mem

theorem always_client (client : TypeScript.Client) (dir : Path) :
    (client.file dir).rule = .always := by
  unfold TypeScript.Client.file
  rfl

theorem delivers_bindAll {entries : List Entry} {result : Except Stop Progress}
    (ran : job.bindAll .disk progress delivery entries = ⟨delivered, result⟩) :
    Delivers delivery delivered := by
  induction entries generalizing progress delivery with
  | nil =>
    cases ran
    exact .refl _
  | cons entry entries ih =>
    unfold Job.bindAll at ran
    split at ran
    · cases ran
      exact .refl _
    · next after files taken =>
      have always := always_of_step taken
      split at ran
      · next put =>
        cases ran
        exact delivers_putAll always put
      · next put => exact (delivers_putAll always put).trans (ih ran)

theorem delivers_finish {result : Except Stop Summary}
    (ran : job.finish .disk delivery progress = ⟨delivered, result⟩) :
    Delivers delivery delivered := by
  unfold Job.finish at ran
  split at ran
  all_goals
    next put =>
    cases ran
    exact delivers_put (always_client _ _) put

end Writing

/-- Whether it ends or stops, a generation has written the files it says. -/
theorem delivers_generate (job : Job) (tree : FileTree) :
    Delivers ⟨tree, []⟩ (job.generate tree).delivery := by
  unfold Job.generate Job.run
  split
  · exact .refl _
  · split
    · next ran => exact delivers_bindAll ran
    · next delivery progress ran =>
      rcases ended : job.finish .disk delivery progress with ⟨final, result⟩
      exact (delivers_bindAll ran).trans (delivers_finish ended)

/-! ## Previews -/

theorem putAll_preview (delivery : Delivery) (files : List GeneratedFile) :
    delivery.putAll .preview files = (⟨delivery.tree, delivery.files ++ files⟩, true) := by
  induction files generalizing delivery with
  | nil => simp [Delivery.putAll]
  | cons file files ih =>
    unfold Delivery.putAll Delivery.put
    simp only [ih, List.append_assoc, List.singleton_append]

theorem bindAll_preview_tree (job : Job) (progress : Progress) (delivery : Delivery)
    (entries : List Entry) :
    (job.bindAll .preview progress delivery entries).delivery.tree = delivery.tree := by
  induction entries generalizing progress delivery with
  | nil => rfl
  | cons entry entries ih =>
    unfold Job.bindAll
    split
    · rfl
    · rw [putAll_preview]
      exact ih _ _

/-- A preview leaves the tree as it is. -/
theorem preview_tree (job : Job) (tree : FileTree) : (job.preview tree).delivery.tree = tree := by
  unfold Job.preview Job.run
  split
  · rfl
  · next entries found =>
    have kept := bindAll_preview_tree job (.start job.project) ⟨tree, []⟩ entries
    split
    · next ran => rwa [ran] at kept
    · next ran =>
      rw [ran] at kept
      exact kept

end Bindery.Run
