import LaLiga.Commons.Sockete
import LaLiga.Commons.Pedidos
import LaLiga.Rc.Mapa
import LaLiga.Rfs.BlockPool
import LaLiga.Rfs.Locks
import LaLiga.Rfs.Numbering
import LaLiga.Rfs.ActiveFiles
import LaLiga.Rfs.LockBalance
import LaLiga.Rfs.Recepcion
import LaLiga.Fsc.Concurrencia
import LaLiga.Fsc.Respuestas
import LaLiga.Rc.BuddyLista
import LaLiga.Rfs.Blocks
import LaLiga.Rfs.Requests
import LaLiga.Rfs.ReadFile
import LaLiga.Rfs.Remove
import LaLiga.Rfs.NameMap
import LaLiga.Rfs.Directory
import LaLiga.Rfs.EntryChain
import LaLiga.Rfs.DirectoryOperations
import LaLiga.Rfs.Frames
import LaLiga.Rfs.DirectoryCount
import LaLiga.Rfs.DirectoryRuns
import LaLiga.Rfs.Allocation
import LaLiga.Rfs.Nodes
import LaLiga.Rfs.Ownership
import LaLiga.Rfs.InodesGiven
import LaLiga.Rfs.CleanBlocks
import LaLiga.Rfs.Removal
import LaLiga.Rfs.Pruning
import LaLiga.Rfs.BlockIndex
import LaLiga.Rfs.Shrinking
import LaLiga.Rfs.Growth
import LaLiga.Rfs.Tree
import LaLiga.Rfs.GrowthSteps
import LaLiga.Rfs.AttachNodes
import LaLiga.Rfs.AttachSteps
import LaLiga.Rfs.AttachLevels
import LaLiga.Rfs.AttachBlocks
import LaLiga.Rfs.Appending
import LaLiga.Rfs.OutOfSpace
import LaLiga.Rfs.DirectoryBlocks
import LaLiga.Rfs.DeleteEntry
import LaLiga.Rfs.Deletions
import LaLiga.Rfs.AttachEntry
import LaLiga.Rfs.Attachments
import LaLiga.Lib.Countdown
import LaLiga.Rc.Ajustes
import LaLiga.Rc.Conveniencia
import LaLiga.Rc.Suficiencia
import LaLiga.Rc.Compactacion
import LaLiga.Rc.Terminacion
import LaLiga.Rfs.Resolution
import LaLiga.Rfs.DirectoryRemoval
import LaLiga.Rfs.Creation
import LaLiga.Rc.Inicializacion
import LaLiga.Rc.Colocacion
import LaLiga.Rc.BuddyMemoria
import LaLiga.Rc.BuddyVacia
import LaLiga.Fsc.Limites
import LaLiga.Rc.BuddyEnlaces
import LaLiga.Rc.Reemplazo
import LaLiga.Rc.Absorcion
import LaLiga.Rc.Aborto
import LaLiga.Rc.Fechas
import LaLiga.Rc.Huecos
import LaLiga.Rc.Desalojable
import LaLiga.Rc.Victima
import LaLiga.Rfs.FileStore
import LaLiga.Rfs.DeleteFile
import LaLiga.Rfs.NamedFiles
import LaLiga.Rfs.Responses
import LaLiga.Fsc.Remoto
import LaLiga.Collections.Refinement
import LaLiga.Rfs.TaskQueue
import LaLiga.Fsc.Conexiones
import LaLiga.Fsc.Atomicidad
