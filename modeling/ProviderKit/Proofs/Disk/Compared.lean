import ProviderKit.Disk.Basic

/-!
# Equality of disks can be decided

What a file holds may be an archive, whose members are files again, so equality is decided by
recursion on both sides together. Disks of which all entries are known can then be compared by
evaluation.
-/

namespace ProviderKit

mutual

/-- Two files hold the same. -/
def Content.same : Content → Content → Bool
  | .bytes data, .bytes data' => data == data'
  | .archive members, .archive members' => Member.allSame members members'
  | _, _ => false

/-- Two members of archives are the same. -/
def Member.same : Member → Member → Bool
  | .directory name, .directory name' => name == name'
  | .file name mode content, .file name' mode' content' =>
    name == name' && mode == mode' && content.same content'
  | .link name target, .link name' target' => name == name' && target == target'
  | .sameFile name target, .sameFile name' target' => name == name' && target == target'
  | .pipe name, .pipe name' => name == name'
  | .device name, .device name' => name == name'
  | .unknown name content, .unknown name' content' => name == name' && content.same content'
  | _, _ => false

/-- Two archives hold the same members, in the same order. -/
def Member.allSame : List Member → List Member → Bool
  | [], [] => true
  | member :: rest, member' :: rest' => member.same member' && Member.allSame rest rest'
  | _, _ => false

end

mutual

/-- Files hold the same just if what they hold is equal. -/
theorem Content.same_iff : ∀ content content' : Content,
    content.same content' = true ↔ content = content'
  | .bytes data, .bytes data' => by simp [Content.same]
  | .archive members, .archive members' => by
    simp [Content.same, Member.allSame_iff members members']
  | .bytes _, .archive _ => by simp [Content.same]
  | .archive _, .bytes _ => by simp [Content.same]

/-- Members are the same just if they are equal. -/
theorem Member.same_iff : ∀ member member' : Member,
    member.same member' = true ↔ member = member'
  | .file name mode content, member' => by
    cases member' <;> simp [Member.same, Content.same_iff content, and_assoc]
  | .unknown name content, member' => by
    cases member' <;> simp [Member.same, Content.same_iff content]
  | .directory _, member' => by cases member' <;> simp [Member.same]
  | .link .., member' => by cases member' <;> simp [Member.same]
  | .sameFile .., member' => by cases member' <;> simp [Member.same]
  | .pipe _, member' => by cases member' <;> simp [Member.same]
  | .device _, member' => by cases member' <;> simp [Member.same]

/-- Archives hold the same members just if the lists of them are equal. -/
theorem Member.allSame_iff : ∀ members members' : List Member,
    Member.allSame members members' = true ↔ members = members'
  | [], [] => by simp [Member.allSame]
  | [], _ :: _ => by simp [Member.allSame]
  | _ :: _, [] => by simp [Member.allSame]
  | member :: rest, member' :: rest' => by
    simp [Member.allSame, Member.same_iff member, Member.allSame_iff rest]

end

instance : DecidableEq Content := fun content content' =>
  decidable_of_iff _ (Content.same_iff content content')

instance : DecidableEq Member := fun member member' =>
  decidable_of_iff _ (Member.same_iff member member')

deriving instance DecidableEq for Entry, Disk

end ProviderKit
