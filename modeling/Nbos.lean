import Nbos.Memory.Paging
import Nbos.Memory.Pool
import Nbos.Memory.Exhausted
import Nbos.Memory.Fork
import Nbos.Memory.Mapping
import Nbos.Memory.Translation
import Nbos.Device.KeyBuffer
import Nbos.Device.ScanCode
import Nbos.Fs.ItemWrite
import Nbos.Fs.Lookup
import Nbos.Fs.Contents
import Nbos.Fs.Search
import Nbos.Fs.BitUpdate
import Nbos.Fs.Split
import Nbos.Process.WaitLoop
import Nbos.Process.ForkFails
import Nbos.Process.Opening
import Nbos.Process.Leak
import Nbos.Process.FdTable
import Nbos.Process.Transfer
import Nbos.Process.Loaded
import Nbos.Process.Protected
import Nbos.Process.Recycled
import Nbos.Process.Stdin
import Nbos.Process.ReadBack
import Nbos.Kernel.Dispatch
import Nbos.Process.Entry
import Nbos.Device.Screen
import Nbos.Boot.Loader
import Nbos.Process.Schedule
import Nbos.Boot.Entry
import Nbos.Boot.Image
import Nbos.Boot.LoadKernel
import Nbos.Process.Store
import Nbos.Process.Pieces
import Nbos.Kernel.Report
import Nbos.Process.Memories
import Nbos.Process.Shell
