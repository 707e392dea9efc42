import AuditLog.Path

/-! The fields that records of the audit log share. -/
namespace AuditLog.Field

def event : Path := .of "event"
def created : Path := .of "created"
def expires : Path := .of "expires"
def player : Path := .of "player"
def cause : Path := .of "cause"
def target : Path := .of "target"
def entity : Path := .of "entity"
def message : Path := .of "message"
def count : Path := .of "count"
def block : Path := .of "block"
def recipient : Path := .of "recipient"
def ip : Path := .of "ip"
def world : Path := ⟨["location", "world"]⟩
def x : Path := ⟨["location", "x"]⟩
def y : Path := ⟨["location", "y"]⟩
def z : Path := ⟨["location", "z"]⟩
def itemType : Path := ⟨["item", "type"]⟩
def itemMeta : Path := ⟨["item", "meta"]⟩
def itemName : Path := ⟨["item", "name"]⟩
def itemLore : Path := ⟨["item", "lore"]⟩

theorem created_ne : created.segments ≠ [] := by decide
theorem cause_ne : cause.segments ≠ [] := by decide
theorem message_ne : message.segments ≠ [] := by decide
theorem count_ne : count.segments ≠ [] := by decide
theorem world_ne : world.segments ≠ [] := by decide
theorem x_ne : x.segments ≠ [] := by decide
theorem y_ne : y.segments ≠ [] := by decide
theorem z_ne : z.segments ≠ [] := by decide

end AuditLog.Field
