import Duel.Content.Folder
import Duel.Settings

namespace Duel.Settings

open Content

def saveAt (path : String) (s : Settings Number) : Folder.Step Unit := Folder.write path s.write

def loadAt (path : String) : Folder.Step (Settings Number) := do
  let before ← Folder.ofExcept ((← get).textAt? path)
  let (loaded, after) := load before
  if before.isNone then after.forM (Folder.write path)
  Folder.ofExcept (loaded.mapError .invalid)

end Duel.Settings
