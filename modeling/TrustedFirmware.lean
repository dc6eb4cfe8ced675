import TrustedFirmware.Locks.Tickets
import TrustedFirmware.Bl1.SecureHandover
import TrustedFirmware.Psci.CpuOn
import TrustedFirmware.Xlat.Pool
import TrustedFirmware.Ehf.NsMask
import TrustedFirmware.Sdei.Binding
import TrustedFirmware.Sdei.Release
import TrustedFirmware.Sdei.Routing
import TrustedFirmware.Auth.ChildVerdict
import TrustedFirmware.Auth.LoadImage
import TrustedFirmware.Spm.Queue
import TrustedFirmware.Spm.Package
import TrustedFirmware.DevkitE7.Delay
import TrustedFirmware.DevkitE7.SeServices
import TrustedFirmware.DevkitE7.FlashBoot
import TrustedFirmware.Io.BlockWrite
import TrustedFirmware.Fip.Driver
import TrustedFirmware.Fip.RoundTrip
import TrustedFirmware.Fip.OpenFaults
import TrustedFirmware.Fip.Devices
import TrustedFirmware.Psci.SystemSuspend
import TrustedFirmware.Spm.RequestCounts
import TrustedFirmware.Gic.DistContext
import TrustedFirmware.Bl31.InterruptMgmt
import TrustedFirmware.Bl31.RuntimeSvc
import TrustedFirmware.DevkitE7.TargetMpidr
import TrustedFirmware.Psci.Reentry
import TrustedFirmware.DevkitE7.Wakeup
import TrustedFirmware.Spm.MemAttr
import TrustedFirmware.Spm.ObjectPool
import TrustedFirmware.Xlat.Lookup
import TrustedFirmware.Ras.Interrupts
import TrustedFirmware.Pmf.Services
import TrustedFirmware.Tzc.Dmc620
import TrustedFirmware.Trusty.Fiq
import TrustedFirmware.Trusty.Vmid
import TrustedFirmware.Common.DescImageLoad
